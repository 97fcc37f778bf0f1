import OverloadDocs.Text.Lower
import OverloadDocs.Text.Ranges

/-!
Searchable words: runs of letters and numbers of all scripts, compared without regard to case and to a
single accent on a Latin letter.
-/

namespace OverloadDocs.Text

/-- The inclusive ranges of letters, numbers and private characters beyond ASCII, in increasing
order. -/
def wordRanges : Array (Nat × Nat) := #[
  (0xaa, 0xaa), (0xb2, 0xb3), (0xb5, 0xb5), (0xb9, 0xba), (0xbc, 0xbe), (0xc0, 0xd6), (0xd8, 0xf6),
  (0xf8, 0x2c1), (0x2c6, 0x2d1), (0x2e0, 0x2e4), (0x2ec, 0x2ec), (0x2ee, 0x2ee), (0x370, 0x374),
  (0x376, 0x377), (0x37a, 0x37d), (0x386, 0x386), (0x388, 0x38a), (0x38c, 0x38c), (0x38e, 0x3a1),
  (0x3a3, 0x3f5), (0x3f7, 0x481), (0x48a, 0x527), (0x531, 0x556), (0x559, 0x559), (0x561, 0x587),
  (0x5d0, 0x5ea), (0x5f0, 0x5f2), (0x620, 0x64a), (0x660, 0x669), (0x66e, 0x66f), (0x671, 0x6d3),
  (0x6d5, 0x6d5), (0x6e5, 0x6e6), (0x6ee, 0x6fc), (0x6ff, 0x6ff), (0x710, 0x710), (0x712, 0x72f),
  (0x74d, 0x7a5), (0x7b1, 0x7b1), (0x7c0, 0x7ea), (0x7f4, 0x7f5), (0x7fa, 0x7fa), (0x800, 0x815),
  (0x81a, 0x81a), (0x824, 0x824), (0x828, 0x828), (0x840, 0x858), (0x8a0, 0x8a0), (0x8a2, 0x8ac),
  (0x904, 0x939), (0x93d, 0x93d), (0x950, 0x950), (0x958, 0x961), (0x966, 0x96f), (0x971, 0x977),
  (0x979, 0x97f), (0x985, 0x98c), (0x98f, 0x990), (0x993, 0x9a8), (0x9aa, 0x9b0), (0x9b2, 0x9b2),
  (0x9b6, 0x9b9), (0x9bd, 0x9bd), (0x9ce, 0x9ce), (0x9dc, 0x9dd), (0x9df, 0x9e1), (0x9e6, 0x9f1),
  (0x9f4, 0x9f9), (0xa05, 0xa0a), (0xa0f, 0xa10), (0xa13, 0xa28), (0xa2a, 0xa30), (0xa32, 0xa33),
  (0xa35, 0xa36), (0xa38, 0xa39), (0xa59, 0xa5c), (0xa5e, 0xa5e), (0xa66, 0xa6f), (0xa72, 0xa74),
  (0xa85, 0xa8d), (0xa8f, 0xa91), (0xa93, 0xaa8), (0xaaa, 0xab0), (0xab2, 0xab3), (0xab5, 0xab9),
  (0xabd, 0xabd), (0xad0, 0xad0), (0xae0, 0xae1), (0xae6, 0xaef), (0xb05, 0xb0c), (0xb0f, 0xb10),
  (0xb13, 0xb28), (0xb2a, 0xb30), (0xb32, 0xb33), (0xb35, 0xb39), (0xb3d, 0xb3d), (0xb5c, 0xb5d),
  (0xb5f, 0xb61), (0xb66, 0xb6f), (0xb71, 0xb77), (0xb83, 0xb83), (0xb85, 0xb8a), (0xb8e, 0xb90),
  (0xb92, 0xb95), (0xb99, 0xb9a), (0xb9c, 0xb9c), (0xb9e, 0xb9f), (0xba3, 0xba4), (0xba8, 0xbaa),
  (0xbae, 0xbb9), (0xbd0, 0xbd0), (0xbe6, 0xbf2), (0xc05, 0xc0c), (0xc0e, 0xc10), (0xc12, 0xc28),
  (0xc2a, 0xc33), (0xc35, 0xc39), (0xc3d, 0xc3d), (0xc58, 0xc59), (0xc60, 0xc61), (0xc66, 0xc6f),
  (0xc78, 0xc7e), (0xc85, 0xc8c), (0xc8e, 0xc90), (0xc92, 0xca8), (0xcaa, 0xcb3), (0xcb5, 0xcb9),
  (0xcbd, 0xcbd), (0xcde, 0xcde), (0xce0, 0xce1), (0xce6, 0xcef), (0xcf1, 0xcf2), (0xd05, 0xd0c),
  (0xd0e, 0xd10), (0xd12, 0xd3a), (0xd3d, 0xd3d), (0xd4e, 0xd4e), (0xd60, 0xd61), (0xd66, 0xd75),
  (0xd7a, 0xd7f), (0xd85, 0xd96), (0xd9a, 0xdb1), (0xdb3, 0xdbb), (0xdbd, 0xdbd), (0xdc0, 0xdc6),
  (0xe01, 0xe30), (0xe32, 0xe33), (0xe40, 0xe46), (0xe50, 0xe59), (0xe81, 0xe82), (0xe84, 0xe84),
  (0xe87, 0xe88), (0xe8a, 0xe8a), (0xe8d, 0xe8d), (0xe94, 0xe97), (0xe99, 0xe9f), (0xea1, 0xea3),
  (0xea5, 0xea5), (0xea7, 0xea7), (0xeaa, 0xeab), (0xead, 0xeb0), (0xeb2, 0xeb3), (0xebd, 0xebd),
  (0xec0, 0xec4), (0xec6, 0xec6), (0xed0, 0xed9), (0xedc, 0xedf), (0xf00, 0xf00), (0xf20, 0xf33),
  (0xf40, 0xf47), (0xf49, 0xf6c), (0xf88, 0xf8c), (0x1000, 0x102a), (0x103f, 0x1049),
  (0x1050, 0x1055), (0x105a, 0x105d), (0x1061, 0x1061), (0x1065, 0x1066), (0x106e, 0x1070),
  (0x1075, 0x1081), (0x108e, 0x108e), (0x1090, 0x1099), (0x10a0, 0x10c5), (0x10c7, 0x10c7),
  (0x10cd, 0x10cd), (0x10d0, 0x10fa), (0x10fc, 0x1248), (0x124a, 0x124d), (0x1250, 0x1256),
  (0x1258, 0x1258), (0x125a, 0x125d), (0x1260, 0x1288), (0x128a, 0x128d), (0x1290, 0x12b0),
  (0x12b2, 0x12b5), (0x12b8, 0x12be), (0x12c0, 0x12c0), (0x12c2, 0x12c5), (0x12c8, 0x12d6),
  (0x12d8, 0x1310), (0x1312, 0x1315), (0x1318, 0x135a), (0x1369, 0x137c), (0x1380, 0x138f),
  (0x13a0, 0x13f4), (0x1401, 0x166c), (0x166f, 0x167f), (0x1681, 0x169a), (0x16a0, 0x16ea),
  (0x16ee, 0x16f0), (0x1700, 0x170c), (0x170e, 0x1711), (0x1720, 0x1731), (0x1740, 0x1751),
  (0x1760, 0x176c), (0x176e, 0x1770), (0x1780, 0x17b3), (0x17d7, 0x17d7), (0x17dc, 0x17dc),
  (0x17e0, 0x17e9), (0x17f0, 0x17f9), (0x1810, 0x1819), (0x1820, 0x1877), (0x1880, 0x1884),
  (0x1887, 0x18a8), (0x18aa, 0x18aa), (0x18b0, 0x18f5), (0x1900, 0x191c), (0x1946, 0x196d),
  (0x1970, 0x1974), (0x1980, 0x19ab), (0x19b0, 0x19c9), (0x19d0, 0x19da), (0x1a00, 0x1a16),
  (0x1a20, 0x1a54), (0x1a80, 0x1a89), (0x1a90, 0x1a99), (0x1aa7, 0x1aa7), (0x1b05, 0x1b33),
  (0x1b45, 0x1b4b), (0x1b50, 0x1b59), (0x1b83, 0x1ba0), (0x1bae, 0x1be5), (0x1c00, 0x1c23),
  (0x1c40, 0x1c49), (0x1c4d, 0x1c7d), (0x1ce9, 0x1cec), (0x1cee, 0x1cf1), (0x1cf5, 0x1cf6),
  (0x1d00, 0x1dbf), (0x1e00, 0x1f15), (0x1f18, 0x1f1d), (0x1f20, 0x1f45), (0x1f48, 0x1f4d),
  (0x1f50, 0x1f57), (0x1f59, 0x1f59), (0x1f5b, 0x1f5b), (0x1f5d, 0x1f5d), (0x1f5f, 0x1f7d),
  (0x1f80, 0x1fb4), (0x1fb6, 0x1fbc), (0x1fbe, 0x1fbe), (0x1fc2, 0x1fc4), (0x1fc6, 0x1fcc),
  (0x1fd0, 0x1fd3), (0x1fd6, 0x1fdb), (0x1fe0, 0x1fec), (0x1ff2, 0x1ff4), (0x1ff6, 0x1ffc),
  (0x2070, 0x2071), (0x2074, 0x2079), (0x207f, 0x2089), (0x2090, 0x209c), (0x2102, 0x2102),
  (0x2107, 0x2107), (0x210a, 0x2113), (0x2115, 0x2115), (0x2119, 0x211d), (0x2124, 0x2124),
  (0x2126, 0x2126), (0x2128, 0x2128), (0x212a, 0x212d), (0x212f, 0x2139), (0x213c, 0x213f),
  (0x2145, 0x2149), (0x214e, 0x214e), (0x2150, 0x2189), (0x2460, 0x249b), (0x24ea, 0x24ff),
  (0x2776, 0x2793), (0x2c00, 0x2c2e), (0x2c30, 0x2c5e), (0x2c60, 0x2ce4), (0x2ceb, 0x2cee),
  (0x2cf2, 0x2cf3), (0x2cfd, 0x2cfd), (0x2d00, 0x2d25), (0x2d27, 0x2d27), (0x2d2d, 0x2d2d),
  (0x2d30, 0x2d67), (0x2d6f, 0x2d6f), (0x2d80, 0x2d96), (0x2da0, 0x2da6), (0x2da8, 0x2dae),
  (0x2db0, 0x2db6), (0x2db8, 0x2dbe), (0x2dc0, 0x2dc6), (0x2dc8, 0x2dce), (0x2dd0, 0x2dd6),
  (0x2dd8, 0x2dde), (0x2e2f, 0x2e2f), (0x3005, 0x3007), (0x3021, 0x3029), (0x3031, 0x3035),
  (0x3038, 0x303c), (0x3041, 0x3096), (0x309d, 0x309f), (0x30a1, 0x30fa), (0x30fc, 0x30ff),
  (0x3105, 0x312d), (0x3131, 0x318e), (0x3192, 0x3195), (0x31a0, 0x31ba), (0x31f0, 0x31ff),
  (0x3220, 0x3229), (0x3248, 0x324f), (0x3251, 0x325f), (0x3280, 0x3289), (0x32b1, 0x32bf),
  (0x3400, 0x4db5), (0x4e00, 0x9fcc), (0xa000, 0xa48c), (0xa4d0, 0xa4fd), (0xa500, 0xa60c),
  (0xa610, 0xa62b), (0xa640, 0xa66e), (0xa67f, 0xa697), (0xa6a0, 0xa6ef), (0xa717, 0xa71f),
  (0xa722, 0xa788), (0xa78b, 0xa78e), (0xa790, 0xa793), (0xa7a0, 0xa7aa), (0xa7f8, 0xa801),
  (0xa803, 0xa805), (0xa807, 0xa80a), (0xa80c, 0xa822), (0xa830, 0xa835), (0xa840, 0xa873),
  (0xa882, 0xa8b3), (0xa8d0, 0xa8d9), (0xa8f2, 0xa8f7), (0xa8fb, 0xa8fb), (0xa900, 0xa925),
  (0xa930, 0xa946), (0xa960, 0xa97c), (0xa984, 0xa9b2), (0xa9cf, 0xa9d9), (0xaa00, 0xaa28),
  (0xaa40, 0xaa42), (0xaa44, 0xaa4b), (0xaa50, 0xaa59), (0xaa60, 0xaa76), (0xaa7a, 0xaa7a),
  (0xaa80, 0xaaaf), (0xaab1, 0xaab1), (0xaab5, 0xaab6), (0xaab9, 0xaabd), (0xaac0, 0xaac0),
  (0xaac2, 0xaac2), (0xaadb, 0xaadd), (0xaae0, 0xaaea), (0xaaf2, 0xaaf4), (0xab01, 0xab06),
  (0xab09, 0xab0e), (0xab11, 0xab16), (0xab20, 0xab26), (0xab28, 0xab2e), (0xabc0, 0xabe2),
  (0xabf0, 0xabf9), (0xac00, 0xd7a3), (0xd7b0, 0xd7c6), (0xd7cb, 0xd7fb), (0xe000, 0xfa6d),
  (0xfa70, 0xfad9), (0xfb00, 0xfb06), (0xfb13, 0xfb17), (0xfb1d, 0xfb1d), (0xfb1f, 0xfb28),
  (0xfb2a, 0xfb36), (0xfb38, 0xfb3c), (0xfb3e, 0xfb3e), (0xfb40, 0xfb41), (0xfb43, 0xfb44),
  (0xfb46, 0xfbb1), (0xfbd3, 0xfd3d), (0xfd50, 0xfd8f), (0xfd92, 0xfdc7), (0xfdf0, 0xfdfb),
  (0xfe70, 0xfe74), (0xfe76, 0xfefc), (0xff10, 0xff19), (0xff21, 0xff3a), (0xff41, 0xff5a),
  (0xff66, 0xffbe), (0xffc2, 0xffc7), (0xffca, 0xffcf), (0xffd2, 0xffd7), (0xffda, 0xffdc),
  (0x10000, 0x1000b), (0x1000d, 0x10026), (0x10028, 0x1003a), (0x1003c, 0x1003d),
  (0x1003f, 0x1004d), (0x10050, 0x1005d), (0x10080, 0x100fa), (0x10107, 0x10133),
  (0x10140, 0x10178), (0x1018a, 0x1018a), (0x10280, 0x1029c), (0x102a0, 0x102d0),
  (0x10300, 0x1031e), (0x10320, 0x10323), (0x10330, 0x1034a), (0x10380, 0x1039d),
  (0x103a0, 0x103c3), (0x103c8, 0x103cf), (0x103d1, 0x103d5), (0x10400, 0x1049d),
  (0x104a0, 0x104a9), (0x10800, 0x10805), (0x10808, 0x10808), (0x1080a, 0x10835),
  (0x10837, 0x10838), (0x1083c, 0x1083c), (0x1083f, 0x10855), (0x10858, 0x1085f),
  (0x10900, 0x1091b), (0x10920, 0x10939), (0x10980, 0x109b7), (0x109be, 0x109bf),
  (0x10a00, 0x10a00), (0x10a10, 0x10a13), (0x10a15, 0x10a17), (0x10a19, 0x10a33),
  (0x10a40, 0x10a47), (0x10a60, 0x10a7e), (0x10b00, 0x10b35), (0x10b40, 0x10b55),
  (0x10b58, 0x10b72), (0x10b78, 0x10b7f), (0x10c00, 0x10c48), (0x10e60, 0x10e7e),
  (0x11003, 0x11037), (0x11052, 0x1106f), (0x11083, 0x110af), (0x110d0, 0x110e8),
  (0x110f0, 0x110f9), (0x11103, 0x11126), (0x11136, 0x1113f), (0x11183, 0x111b2),
  (0x111c1, 0x111c4), (0x111d0, 0x111d9), (0x11680, 0x116aa), (0x116c0, 0x116c9),
  (0x12000, 0x1236e), (0x12400, 0x12462), (0x13000, 0x1342e), (0x16800, 0x16a38),
  (0x16f00, 0x16f44), (0x16f50, 0x16f50), (0x16f93, 0x16f9f), (0x1b000, 0x1b001),
  (0x1d360, 0x1d371), (0x1d400, 0x1d454), (0x1d456, 0x1d49c), (0x1d49e, 0x1d49f),
  (0x1d4a2, 0x1d4a2), (0x1d4a5, 0x1d4a6), (0x1d4a9, 0x1d4ac), (0x1d4ae, 0x1d4b9),
  (0x1d4bb, 0x1d4bb), (0x1d4bd, 0x1d4c3), (0x1d4c5, 0x1d505), (0x1d507, 0x1d50a),
  (0x1d50d, 0x1d514), (0x1d516, 0x1d51c), (0x1d51e, 0x1d539), (0x1d53b, 0x1d53e),
  (0x1d540, 0x1d544), (0x1d546, 0x1d546), (0x1d54a, 0x1d550), (0x1d552, 0x1d6a5),
  (0x1d6a8, 0x1d6c0), (0x1d6c2, 0x1d6da), (0x1d6dc, 0x1d6fa), (0x1d6fc, 0x1d714),
  (0x1d716, 0x1d734), (0x1d736, 0x1d74e), (0x1d750, 0x1d76e), (0x1d770, 0x1d788),
  (0x1d78a, 0x1d7a8), (0x1d7aa, 0x1d7c2), (0x1d7c4, 0x1d7cb), (0x1d7ce, 0x1d7ff),
  (0x1ee00, 0x1ee03), (0x1ee05, 0x1ee1f), (0x1ee21, 0x1ee22), (0x1ee24, 0x1ee24),
  (0x1ee27, 0x1ee27), (0x1ee29, 0x1ee32), (0x1ee34, 0x1ee37), (0x1ee39, 0x1ee39),
  (0x1ee3b, 0x1ee3b), (0x1ee42, 0x1ee42), (0x1ee47, 0x1ee47), (0x1ee49, 0x1ee49),
  (0x1ee4b, 0x1ee4b), (0x1ee4d, 0x1ee4f), (0x1ee51, 0x1ee52), (0x1ee54, 0x1ee54),
  (0x1ee57, 0x1ee57), (0x1ee59, 0x1ee59), (0x1ee5b, 0x1ee5b), (0x1ee5d, 0x1ee5d),
  (0x1ee5f, 0x1ee5f), (0x1ee61, 0x1ee62), (0x1ee64, 0x1ee64), (0x1ee67, 0x1ee6a),
  (0x1ee6c, 0x1ee72), (0x1ee74, 0x1ee77), (0x1ee79, 0x1ee7c), (0x1ee7e, 0x1ee7e),
  (0x1ee80, 0x1ee89), (0x1ee8b, 0x1ee9b), (0x1eea1, 0x1eea3), (0x1eea5, 0x1eea9),
  (0x1eeab, 0x1eebb), (0x1f100, 0x1f10a), (0x20000, 0x2a6d6), (0x2a700, 0x2b734),
  (0x2b740, 0x2b81d), (0x2f800, 0x2fa1d), (0xf0000, 0xffffd)]

def isWordChar (c : Char) : Bool := c.isAlphanum || isAmong wordRanges c

/-- The inclusive ranges of the accents that are put behind a letter, in increasing order. -/
def accentRanges : Array (Nat × Nat) := #[
  (0x300, 0x304), (0x306, 0x30c), (0x30f, 0x30f), (0x311, 0x311), (0x31b, 0x31b), (0x323, 0x328),
  (0x32d, 0x32e), (0x330, 0x331)]

def isAccent (c : Char) : Bool := isAmong accentRanges c

/-- The inclusive ranges in which small letters are a Latin letter with one accent, and that letter. -/
def accentedRanges : List (Nat × Nat × Char) := [
  (0xe0, 0xe5, 'a'), (0xe7, 0xe7, 'c'), (0xe8, 0xeb, 'e'), (0xec, 0xef, 'i'), (0xf1, 0xf1, 'n'),
  (0xf2, 0xf6, 'o'), (0xf9, 0xfc, 'u'), (0xfd, 0xfd, 'y'), (0xff, 0xff, 'y'), (0x101, 0x105, 'a'),
  (0x107, 0x10d, 'c'), (0x10f, 0x10f, 'd'), (0x113, 0x119, 'e'), (0x11b, 0x11b, 'e'),
  (0x11d, 0x123, 'g'), (0x125, 0x125, 'h'), (0x129, 0x130, 'i'), (0x135, 0x135, 'j'),
  (0x137, 0x137, 'k'), (0x13a, 0x13e, 'l'), (0x144, 0x148, 'n'), (0x14d, 0x151, 'o'),
  (0x155, 0x159, 'r'), (0x15b, 0x161, 's'), (0x163, 0x165, 't'), (0x169, 0x16f, 'u'),
  (0x171, 0x173, 'u'), (0x175, 0x175, 'w'), (0x177, 0x177, 'y'), (0x17a, 0x17e, 'z'),
  (0x1a1, 0x1a1, 'o'), (0x1b0, 0x1b0, 'u'), (0x1ce, 0x1ce, 'a'), (0x1d0, 0x1d0, 'i'),
  (0x1d2, 0x1d2, 'o'), (0x1d4, 0x1d4, 'u'), (0x1e7, 0x1e7, 'g'), (0x1e9, 0x1e9, 'k'),
  (0x1eb, 0x1eb, 'o'), (0x1f0, 0x1f0, 'j'), (0x1f5, 0x1f5, 'g'), (0x1f9, 0x1f9, 'n'),
  (0x201, 0x203, 'a'), (0x205, 0x207, 'e'), (0x209, 0x20b, 'i'), (0x20d, 0x20f, 'o'),
  (0x211, 0x213, 'r'), (0x215, 0x217, 'u'), (0x219, 0x219, 's'), (0x21b, 0x21b, 't'),
  (0x21f, 0x21f, 'h'), (0x227, 0x227, 'a'), (0x229, 0x229, 'e'), (0x22f, 0x22f, 'o'),
  (0x233, 0x233, 'y'), (0x1e01, 0x1e01, 'a'), (0x1e03, 0x1e07, 'b'), (0x1e0b, 0x1e11, 'd'),
  (0x1e13, 0x1e13, 'd'), (0x1e19, 0x1e1b, 'e'), (0x1e1f, 0x1e1f, 'f'), (0x1e21, 0x1e21, 'g'),
  (0x1e23, 0x1e29, 'h'), (0x1e2b, 0x1e2b, 'h'), (0x1e2d, 0x1e2d, 'i'), (0x1e31, 0x1e35, 'k'),
  (0x1e37, 0x1e37, 'l'), (0x1e3b, 0x1e3d, 'l'), (0x1e3f, 0x1e43, 'm'), (0x1e45, 0x1e4b, 'n'),
  (0x1e55, 0x1e57, 'p'), (0x1e59, 0x1e5b, 'r'), (0x1e5f, 0x1e5f, 'r'), (0x1e61, 0x1e63, 's'),
  (0x1e6b, 0x1e71, 't'), (0x1e73, 0x1e77, 'u'), (0x1e7d, 0x1e7f, 'v'), (0x1e81, 0x1e87, 'w'),
  (0x1e89, 0x1e89, 'w'), (0x1e8b, 0x1e8d, 'x'), (0x1e8f, 0x1e8f, 'y'), (0x1e91, 0x1e95, 'z'),
  (0x1e96, 0x1e96, 'h'), (0x1e97, 0x1e97, 't'), (0x1e98, 0x1e98, 'w'), (0x1e99, 0x1e99, 'y'),
  (0x1ea1, 0x1ea3, 'a'), (0x1eb9, 0x1ebd, 'e'), (0x1ec9, 0x1ecb, 'i'), (0x1ecd, 0x1ecf, 'o'),
  (0x1ee5, 0x1ee7, 'u'), (0x1ef3, 0x1ef9, 'y')]

/-- A small letter without its accent. -/
def withoutAccent (c : Char) : Char :=
  ((accentedRanges.find? fun (first, last, _) => first ≤ c.toNat ∧ c.toNat ≤ last).map (·.2.2)).getD c

/-- Letters that are another shape of a small letter, and that letter. -/
def letterVariants : List (Char × Char) := [
  ('\u00b5', '\u03bc'), ('\u017f', '\u0073'), ('\u03c2', '\u03c3'), ('\u03d0', '\u03b2'),
  ('\u03d1', '\u03b8'), ('\u03d5', '\u03c6'), ('\u03d6', '\u03c0'), ('\u03f0', '\u03ba'),
  ('\u03f1', '\u03c1'), ('\u03f5', '\u03b5'), ('\u1e9b', '\u1e61'), ('\u1fbe', '\u03b9')]

/-- A character of a word as it is compared. -/
def foldedChar (c : Char) : Char := withoutAccent (lowerChar ((letterVariants.lookup c).getD c))

/-- The words of a text as they stand in it, behind the characters of a word that has begun, in
reverse. -/
def wordRuns (begun : List Char) : List Char → List (List Char)
  | [] => if begun.isEmpty then [] else [begun.reverse]
  | c :: cs =>
    if isWordChar c || (isAccent c && !begun.isEmpty) then wordRuns (c :: begun) cs
    else if begun.isEmpty then wordRuns [] cs
    else begun.reverse :: wordRuns [] cs

/-- The searchable words of a text, as they are compared. -/
def searchWords (cs : List Char) : List (List Char) :=
  (wordRuns [] cs).map fun word => (word.filter (!isAccent ·)).map foldedChar

end OverloadDocs.Text
