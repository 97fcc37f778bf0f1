import OverloadDocs.Store.Operation

/-!
Transactions. Whether an operation is asked of the store or of a transaction, its statement is run on the querier of
that handle and on nothing else. So a sequence of operations answers inside a transaction as it does directly, never
waits for the connection, and a commit leaves the rows that it leaves. Until then the committed rows stand as they did,
and a rollback leaves them so with the identities that were given last. A transaction begins no other. Only its status
is asked of the store, which waits for the connection that the transaction has.
-/

namespace OverloadDocs

variable {α : Type}

/-! ## Routing -/

/-- Every method for an operation runs its statement on the querier. -/
structure Storage.RunsOn [Score α] (h : Storage α) (raw : Store → String → RawScores α) (q : Querier) : Prop where
  createProject : h.createProject = q.createProject
  project : h.project = q.project
  updateProject : h.updateProject = q.updateProject
  upsertFile : h.upsertFile = q.upsertFile
  file : h.file = q.file
  fileById : h.fileById = q.fileById
  deleteFile : h.deleteFile = q.deleteFile
  files : h.files = q.files
  upsertFunction : h.upsertFunction = q.upsertFunction
  function : h.function = q.function
  functionsOfFile : h.functionsOfFile = q.functionsOfFile
  functionsOf : h.functionsOf = q.functionsOf
  functionsNamed : h.functionsNamed = q.functionsNamed
  deleteFunction : h.deleteFunction = q.deleteFunction
  deleteFunctionsOf : h.deleteFunctionsOf = q.deleteFunctionsOf
  searchText : h.searchText = q.searchText raw

theorem Storage.runsOn_ofPool [Score α] (raw : Store → String → RawScores α) :
    (Storage.ofPool raw).RunsOn raw .pool := by
  constructor <;> rfl

theorem Storage.runsOn_ofTransaction [Score α] (raw : Store → String → RawScores α) (id : Nat) :
    (Storage.ofTransaction raw id).RunsOn raw (.transaction id) := by
  constructor <;> rfl

/-! ## Agreement -/

/-- Two requests are answered alike in related databases, which stay related. -/
def Agrees {β : Type} (R : Database → Database → Prop) (left right : Interaction β) : Prop :=
  ∀ ⦃db db' : Database⦄, R db db' →
    ∃ answer, (left db).1 = .answered answer ∧ (right db').1 = .answered answer ∧ R (left db).2 (right db').2

/-- Statements are answered alike on two queriers in related databases, which stay related. -/
def Querier.Agree (R : Database → Database → Prop) (q q' : Querier) : Prop :=
  ∀ {β : Type} (action : Option StoreAction) (f : Store → Except StoreError (β × Store)),
    Agrees R (q.execute action f) (q'.execute action f)

section

variable {R : Database → Database → Prop} {β γ : Type}

theorem Agrees.map {left right : Interaction β} (h : Agrees R left right) (f : β → γ) :
    Agrees R (left.map f) (right.map f) := by
  intro db db' hrel
  obtain ⟨answer, hleft, hright, hafter⟩ := h hrel
  refine ⟨answer.map f, ?_, ?_, hafter⟩
  · show (left db).1.map f = _
    rw [hleft, Reply.map]
  · show (right db').1.map f = _
    rw [hright, Reply.map]

theorem agrees_answer (answer : Except StoreError β) : Agrees R (.answer answer) (.answer answer) :=
  fun _ _ hrel => ⟨answer, rfl, rfl, hrel⟩

theorem Querier.Agree.query {q q' : Querier} (h : Querier.Agree R q q') (action : Option StoreAction)
    (f : Store → Except StoreError β) : Agrees R (q.query action f) (q'.query action f) :=
  h action _

/-- Handles agree on every operation when the queriers agree that they run them on. -/
theorem Storage.RunsOn.perform [Score α] {h h' : Storage α} {raw : Store → String → RawScores α} {q q' : Querier}
    (hruns : h.RunsOn raw q) (hruns' : h'.RunsOn raw q') (hagree : Querier.Agree R q q') (o : StoreOperation α) :
    Agrees R (h.perform o) (h'.perform o) := by
  cases o with
  | call c =>
      unfold Storage.perform Storage.call
      cases c with
      | createProject root name indexVersion =>
          rw [hruns.createProject, hruns'.createProject]
          exact (hagree _ _).map _
      | updateProject id name totalFiles totalFunctions indexed =>
          rw [hruns.updateProject, hruns'.updateProject]
          exact (hagree _ _).map _
      | upsertFile file =>
          rw [hruns.upsertFile, hruns'.upsertFile]
          exact (hagree _ _).map _
      | deleteFile id =>
          rw [hruns.deleteFile, hruns'.deleteFile]
          exact (hagree _ _).map _
      | upsertFunction function =>
          rw [hruns.upsertFunction, hruns'.upsertFunction]
          exact (hagree _ _).map _
      | deleteFunction id =>
          rw [hruns.deleteFunction, hruns'.deleteFunction]
          exact (hagree _ _).map _
      | deleteFunctionsOf fileId =>
          rw [hruns.deleteFunctionsOf, hruns'.deleteFunctionsOf]
          exact (hagree _ _).map _
  | question question =>
      unfold Storage.perform Storage.ask
      cases question with
      | project root =>
          rw [hruns.project, hruns'.project]
          exact (hagree.query _ _).map _
      | file projectId path =>
          rw [hruns.file, hruns'.file]
          exact (hagree.query _ _).map _
      | fileById id =>
          rw [hruns.fileById, hruns'.fileById]
          exact (hagree.query _ _).map _
      | files projectId =>
          rw [hruns.files, hruns'.files]
          exact (hagree.query _ _).map _
      | function id =>
          rw [hruns.function, hruns'.function]
          exact (hagree.query _ _).map _
      | functionsOfFile fileId =>
          rw [hruns.functionsOfFile, hruns'.functionsOfFile]
          exact (hagree.query _ _).map _
      | functionsOf projectId =>
          rw [hruns.functionsOf, hruns'.functionsOf]
          exact (hagree.query _ _).map _
      | functionsNamed projectId name =>
          rw [hruns.functionsNamed, hruns'.functionsNamed]
          exact (hagree.query _ _).map _
  | searchText projectId query limit filter =>
      unfold Storage.perform
      rw [hruns.searchText, hruns'.searchText]
      apply Agrees.map
      -- an empty query is answered before either querier is asked
      unfold Querier.searchText
      split
      · exact agrees_answer _
      · exact hagree.query _ _

end

namespace Database

variable {β : Type} {db db' : Database} {id : Nat} {rows : Store}

/-! ## Statements -/

theorem execute_pool (h : db.transaction.isActive = false) (action : Option StoreAction)
    (f : Store → Except StoreError (β × Store)) :
    Querier.pool.execute action f db = (.answered (db.change action f).1, (db.change action f).2) := by
  rw [Querier.execute, if_neg]
  rintro ⟨-, hactive⟩
  rw [h] at hactive
  contradiction

theorem execute_pool_waiting (hopen : db.closed = false) (h : db.transaction = .active id rows)
    (action : Option StoreAction) (f : Store → Except StoreError (β × Store)) :
    Querier.pool.execute action f db = (.waiting, db) := by
  rw [Querier.execute, if_pos]
  exact ⟨hopen, by rw [h]; rfl⟩

theorem rows?_of_active (h : db.transaction = .active id rows) : db.transaction.rows? id = some rows := by
  rw [h]
  exact if_pos rfl

theorem execute_transaction (h : db.transaction = .active id rows) (action : Option StoreAction)
    (f : Store → Except StoreError (β × Store)) :
    (Querier.transaction id).execute action f db =
      match f rows with
      | .error e => (.answered (.error e), db)
      | .ok (b, rows) => (.answered (.ok b), { db with transaction := .active id rows }) := by
  unfold Querier.execute
  cases hf : f rows with
  | error e => simp only [rows?_of_active h, hf]
  | ok done => simp only [rows?_of_active h, hf]

theorem change_of_open (hopen : db.closed = false) (action : Option StoreAction)
    (f : Store → Except StoreError (β × Store)) :
    db.change action f =
      match f db.store with
      | .error e => (.error e, db)
      | .ok (b, rows) => (.ok b, { db with store := rows }) := by
  unfold change
  have hread : db.read action f = f db.store := by rw [read, hopen, if_neg Bool.false_ne_true]
  cases hf : f db.store with
  | error e => simp only [hread, hf]
  | ok done => simp only [hread, hf]

/-! ## Inside a transaction -/

/-- The first of two open databases has a transaction, whose rows are the committed rows of the second one. -/
structure Shadows (id : Nat) (before : Store) (inside direct : Database) : Prop where
  active : inside.transaction = .active id direct.store
  withheld : inside.store = before
  closed : inside.closed = direct.closed
  opened : direct.closed = false
  idle : direct.transaction.isActive = false

/-- A statement does to the rows of the transaction what it does directly to the committed rows. -/
theorem Shadows.agree (id : Nat) (before : Store) :
    Querier.Agree (Shadows id before) (.transaction id) .pool := by
  intro β action f inside direct h
  rw [execute_transaction h.active, execute_pool h.idle, change_of_open h.opened]
  cases f direct.store with
  | error e => exact ⟨.error e, rfl, rfl, h⟩
  | ok done => exact ⟨.ok done.1, rfl, rfl, rfl, h.withheld, h.closed, h.opened, h.idle⟩

section

variable [Score α] {before : Store} {inside direct : Database}

theorem Shadows.perform (raw : Store → String → RawScores α) (id : Nat) (before : Store) (o : StoreOperation α) :
    Agrees (Shadows id before) ((Storage.ofTransaction raw id).perform o) ((Storage.ofPool raw).perform o) :=
  (Storage.runsOn_ofTransaction raw id).perform (Storage.runsOn_ofPool raw) (Shadows.agree id before) o

/-- What is no operation does nothing in a transaction, and operations do what they do directly. -/
theorem Shadows.after (h : Shadows id before inside direct) (raw : Store → String → RawScores α)
    (rs : List (StoreRequest α)) :
    Shadows id before ((Storage.ofTransaction raw id).after rs inside)
      ((Storage.ofPool raw).after (rs.filter (·.isOperation)) direct) := by
  induction rs generalizing inside direct with
  | nil => exact h
  | cons r rs ih =>
      cases r with
      | operation o =>
          obtain ⟨-, -, -, hnext⟩ := Shadows.perform raw id before o h
          exact ih hnext
      | begin => exact ih h
      | close => exact ih h

end

/-! ## After a transaction -/

/-- The databases are the same but for transactions that are over. -/
structure Alike (db db' : Database) : Prop where
  store : db.store = db'.store
  closed : db.closed = db'.closed
  idle : db.transaction.isActive = false
  idle' : db'.transaction.isActive = false

theorem Alike.agree : Querier.Agree Alike .pool .pool := by
  intro β action f db db' h
  have hread : db.read action f = db'.read action f := by rw [read, read, h.closed, h.store]
  rw [execute_pool h.idle, execute_pool h.idle', change, change, hread]
  cases db'.read action f with
  | error e => exact ⟨.error e, rfl, rfl, h⟩
  | ok done => exact ⟨.ok done.1, rfl, rfl, rfl, h.closed, h.idle, h.idle'⟩

section

variable [Score α]

theorem Alike.perform (raw : Store → String → RawScores α) (o : StoreOperation α) :
    Agrees Alike ((Storage.ofPool raw).perform o) ((Storage.ofPool raw).perform o) :=
  (Storage.runsOn_ofPool raw).perform (Storage.runsOn_ofPool raw) Alike.agree o

theorem Alike.after (h : Alike db db') (raw : Store → String → RawScores α) (os : List (StoreOperation α)) :
    Alike ((Storage.ofPool raw).after (os.map .operation) db) ((Storage.ofPool raw).after (os.map .operation) db') := by
  induction os generalizing db db' with
  | nil => exact h
  | cons o os ih =>
      obtain ⟨-, -, -, hnext⟩ := Alike.perform raw o h
      exact ih hnext

/-- The databases hold the same, neither has a transaction, and both answer every later operation alike. -/
structure Interchangeable (raw : Store → String → RawScores α) (db db' : Database) : Prop where
  store : db.store = db'.store
  closed : db.closed = db'.closed
  idle : db.transaction.isActive = false ∧ db'.transaction.isActive = false
  answers : ∀ (later : List (StoreOperation α)) (o : StoreOperation α), ∃ answer,
    ((Storage.ofPool raw).perform o ((Storage.ofPool raw).after (later.map .operation) db)).1 = .answered answer ∧
      ((Storage.ofPool raw).perform o ((Storage.ofPool raw).after (later.map .operation) db')).1 = .answered answer

theorem Alike.interchangeable (h : Alike db db') (raw : Store → String → RawScores α) :
    Interchangeable raw db db' where
  store := h.store
  closed := h.closed
  idle := ⟨h.idle, h.idle'⟩
  answers later o := by
    obtain ⟨answer, hleft, hright, -⟩ := Alike.perform raw o (h.after raw later)
    exact ⟨answer, hleft, hright⟩

/-! ## Transactions -/

/-- What a transaction comes to that was begun in a database. The requests in it are operations, which are answered as
they are directly, and attempts to begin another transaction or to close it, which do nothing. -/
structure Transparent (raw : Store → String → RawScores α) (db : Database) (id : Nat) (inside : Database) : Prop where
  answers : ∀ rs o, ∃ answer,
    ((Storage.ofTransaction raw id).perform o ((Storage.ofTransaction raw id).after rs inside)).1 =
        .answered answer ∧
      ((Storage.ofPool raw).perform o ((Storage.ofPool raw).after (rs.filter (·.isOperation)) db)).1 =
        .answered answer
  refuses : ∀ rs, (Storage.ofTransaction raw id).begin ((Storage.ofTransaction raw id).after rs inside) =
    (.answered (.error .nestedTransaction), (Storage.ofTransaction raw id).after rs inside)
  withholds : ∀ rs, ((Storage.ofTransaction raw id).after rs inside).store = db.store
  waits : ∀ rs projectId,
    (Storage.ofTransaction raw id).status projectId ((Storage.ofTransaction raw id).after rs inside) =
      (.waiting, (Storage.ofTransaction raw id).after rs inside)
  commits : ∀ rs, ∃ done, commit id ((Storage.ofTransaction raw id).after rs inside) = (.answered (.ok ()), done) ∧
    Interchangeable raw done ((Storage.ofPool raw).after (rs.filter (·.isOperation)) db)
  restores : ∀ rs, ∃ done,
    rollback id ((Storage.ofTransaction raw id).after rs inside) = (.answered (.ok ()), done) ∧
      Interchangeable raw done db

theorem Shadows.commit {before : Store} {inside direct : Database} (h : Shadows id before inside direct) :
    ∃ done, Database.commit id inside = (.answered (.ok ()), done) ∧ Alike done direct := by
  rw [Database.commit, rows?_of_active h.active]
  exact ⟨_, rfl, rfl, h.closed, rfl, h.idle⟩

theorem Shadows.rollback {before : Store} {inside direct : Database} (h : Shadows id before inside direct) :
    ∃ done, Database.rollback id inside = (.answered (.ok ()), done) ∧ done.store = before ∧
      done.closed = false ∧ done.transaction.isActive = false := by
  rw [Database.rollback, rows?_of_active h.active]
  exact ⟨_, rfl, h.withheld, h.closed.trans h.opened, rfl⟩

/-- A transaction in an open database is transparent, and all of it counts or nothing. -/
theorem begin_transparent (raw : Store → String → RawScores α) (db : Database) (hopen : db.closed = false)
    (hidle : db.transaction.isActive = false) :
    ∃ id inside, (Storage.ofPool raw).begin db = (.answered (.ok id), inside) ∧ Transparent raw db id inside := by
  have hbegin : (Storage.ofPool raw).begin db = (.answered (.ok (db.transaction.begun + 1)),
      { db with transaction := .active (db.transaction.begun + 1) db.store }) := by
    show Database.begin db = _
    rw [begin, hopen, if_neg Bool.false_ne_true, hidle, if_neg Bool.false_ne_true]
  refine ⟨_, _, hbegin, ?_⟩
  generalize db.transaction.begun + 1 = id
  have hstart : Shadows id db.store { db with transaction := .active id db.store } db :=
    ⟨rfl, rfl, rfl, hopen, hidle⟩
  constructor
  case answers =>
    intro rs o
    obtain ⟨answer, hinside, hdirect, -⟩ := Shadows.perform raw id db.store o (hstart.after raw rs)
    exact ⟨answer, hinside, hdirect⟩
  case refuses => exact fun rs => rfl
  case withholds => exact fun rs => (hstart.after raw rs).withheld
  case waits =>
    intro rs projectId
    have h := hstart.after raw rs
    exact execute_pool_waiting (h.closed.trans h.opened) h.active _ _
  case commits =>
    intro rs
    obtain ⟨done, hdone, halike⟩ := (hstart.after raw rs).commit
    exact ⟨done, hdone, halike.interchangeable raw⟩
  case restores =>
    intro rs
    obtain ⟨done, hdone, hstore, hclosed, hover⟩ := (hstart.after raw rs).rollback
    have halike : Alike done db := ⟨hstore, hclosed.trans hopen.symm, hover, hidle⟩
    exact ⟨done, hdone, halike.interchangeable raw⟩

/-- A project is added, another transaction is asked for, and a root that is there already is refused. A rollback gives
the identity of the added project again, and a commit does not. -/
theorem begin_transparent_of_second_project :
    let add (root : String) : StoreOperation Float := .call (.createProject root "" "1")
    let rs : List (StoreRequest Float) := [.operation (add "/b"), .begin, .operation (add "/a")]
    let added (id : Int) (root : String) : Reply (StoreAnswer Float) :=
      .answered (.ok (.project { id := id, root := root, indexVersion := "1" }))
    let db : Database :=
      { store := { projects := [{ id := 1, root := "/a" }], lastProject := 1 }, transaction := .over 4 }
    let store : Storage Float := .ofPool Store.rawScores
    let transaction : Storage Float := .ofTransaction Store.rawScores 5
    db.closed = false ∧ db.transaction.isActive = false ∧
      ∃ inside kept dropped, store.begin db = (.answered (.ok 5), inside) ∧
        Transparent Store.rawScores db 5 inside ∧
        commit 5 (transaction.after rs inside) = (.answered (.ok ()), kept) ∧
        (store.perform (add "/c") kept).1 = added 3 "/c" ∧
        rollback 5 (transaction.after rs inside) = (.answered (.ok ()), dropped) ∧
        (store.perform (add "/c") dropped).1 = added 2 "/c" := by
  intro add rs added db store transaction
  obtain ⟨id, inside, hbegin, htransparent⟩ := begin_transparent Store.rawScores db rfl rfl
  cases hbegin
  exact ⟨rfl, rfl, _, _, _, rfl, htransparent, rfl, rfl, rfl, rfl⟩

end

end Database

end OverloadDocs
