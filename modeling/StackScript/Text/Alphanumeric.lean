import StackScript.Text.Identifier

set_option autoImplicit false

/-!
# Alphanumeric characters

The alphabetic and the numeric characters of Unicode 17. They are the characters that may start an
identifier, two letterlike symbols and the underscore apart, with the digits and the characters of
one further table: vowel signs, circled letters, numbers that are no decimal digits, and the letters
that are newer than the identifier classes.
-/
namespace StackScript.Text

/-- Alphanumeric characters from U+0080 on that do not start an identifier. -/
def alphanumericRanges : List CodeRange := [
  ⟨0xb2, 0xb3⟩, ⟨0xb9, 0xb9⟩, ⟨0xbc, 0xbe⟩, ⟨0x345, 0x345⟩, ⟨0x363, 0x36f⟩, ⟨0x37a, 0x37a⟩,
  ⟨0x5b0, 0x5bd⟩, ⟨0x5bf, 0x5bf⟩, ⟨0x5c1, 0x5c2⟩, ⟨0x5c4, 0x5c5⟩, ⟨0x5c7, 0x5c7⟩,
  ⟨0x610, 0x61a⟩, ⟨0x64b, 0x657⟩, ⟨0x659, 0x669⟩, ⟨0x670, 0x670⟩, ⟨0x6d6, 0x6dc⟩,
  ⟨0x6e1, 0x6e4⟩, ⟨0x6e7, 0x6e8⟩, ⟨0x6ed, 0x6ed⟩, ⟨0x6f0, 0x6f9⟩, ⟨0x711, 0x711⟩,
  ⟨0x730, 0x73f⟩, ⟨0x7a6, 0x7b0⟩, ⟨0x7c0, 0x7c9⟩, ⟨0x816, 0x817⟩, ⟨0x81b, 0x823⟩,
  ⟨0x825, 0x827⟩, ⟨0x829, 0x82c⟩, ⟨0x88f, 0x88f⟩, ⟨0x897, 0x897⟩, ⟨0x8d4, 0x8df⟩,
  ⟨0x8e3, 0x8e9⟩, ⟨0x8f0, 0x903⟩, ⟨0x93a, 0x93b⟩, ⟨0x93e, 0x94c⟩, ⟨0x94e, 0x94f⟩,
  ⟨0x955, 0x957⟩, ⟨0x962, 0x963⟩, ⟨0x966, 0x96f⟩, ⟨0x981, 0x983⟩, ⟨0x9be, 0x9c4⟩,
  ⟨0x9c7, 0x9c8⟩, ⟨0x9cb, 0x9cc⟩, ⟨0x9d7, 0x9d7⟩, ⟨0x9e2, 0x9e3⟩, ⟨0x9e6, 0x9ef⟩,
  ⟨0x9f4, 0x9f9⟩, ⟨0xa01, 0xa03⟩, ⟨0xa3e, 0xa42⟩, ⟨0xa47, 0xa48⟩, ⟨0xa4b, 0xa4c⟩,
  ⟨0xa51, 0xa51⟩, ⟨0xa66, 0xa71⟩, ⟨0xa75, 0xa75⟩, ⟨0xa81, 0xa83⟩, ⟨0xabe, 0xac5⟩,
  ⟨0xac7, 0xac9⟩, ⟨0xacb, 0xacc⟩, ⟨0xae2, 0xae3⟩, ⟨0xae6, 0xaef⟩, ⟨0xafa, 0xafc⟩,
  ⟨0xb01, 0xb03⟩, ⟨0xb3e, 0xb44⟩, ⟨0xb47, 0xb48⟩, ⟨0xb4b, 0xb4c⟩, ⟨0xb56, 0xb57⟩,
  ⟨0xb62, 0xb63⟩, ⟨0xb66, 0xb6f⟩, ⟨0xb72, 0xb77⟩, ⟨0xb82, 0xb82⟩, ⟨0xbbe, 0xbc2⟩,
  ⟨0xbc6, 0xbc8⟩, ⟨0xbca, 0xbcc⟩, ⟨0xbd7, 0xbd7⟩, ⟨0xbe6, 0xbf2⟩, ⟨0xc00, 0xc04⟩,
  ⟨0xc3e, 0xc44⟩, ⟨0xc46, 0xc48⟩, ⟨0xc4a, 0xc4c⟩, ⟨0xc55, 0xc56⟩, ⟨0xc5c, 0xc5c⟩,
  ⟨0xc62, 0xc63⟩, ⟨0xc66, 0xc6f⟩, ⟨0xc78, 0xc7e⟩, ⟨0xc81, 0xc83⟩, ⟨0xcbe, 0xcc4⟩,
  ⟨0xcc6, 0xcc8⟩, ⟨0xcca, 0xccc⟩, ⟨0xcd5, 0xcd6⟩, ⟨0xcdc, 0xcdc⟩, ⟨0xce2, 0xce3⟩,
  ⟨0xce6, 0xcef⟩, ⟨0xcf3, 0xcf3⟩, ⟨0xd00, 0xd03⟩, ⟨0xd3e, 0xd44⟩, ⟨0xd46, 0xd48⟩,
  ⟨0xd4a, 0xd4c⟩, ⟨0xd57, 0xd5e⟩, ⟨0xd62, 0xd63⟩, ⟨0xd66, 0xd78⟩, ⟨0xd81, 0xd83⟩,
  ⟨0xdcf, 0xdd4⟩, ⟨0xdd6, 0xdd6⟩, ⟨0xdd8, 0xddf⟩, ⟨0xde6, 0xdef⟩, ⟨0xdf2, 0xdf3⟩,
  ⟨0xe31, 0xe31⟩, ⟨0xe33, 0xe3a⟩, ⟨0xe4d, 0xe4d⟩, ⟨0xe50, 0xe59⟩, ⟨0xeb1, 0xeb1⟩,
  ⟨0xeb3, 0xeb9⟩, ⟨0xebb, 0xebc⟩, ⟨0xecd, 0xecd⟩, ⟨0xed0, 0xed9⟩, ⟨0xf20, 0xf33⟩,
  ⟨0xf71, 0xf83⟩, ⟨0xf8d, 0xf97⟩, ⟨0xf99, 0xfbc⟩, ⟨0x102b, 0x1036⟩, ⟨0x1038, 0x1038⟩,
  ⟨0x103b, 0x103e⟩, ⟨0x1040, 0x1049⟩, ⟨0x1056, 0x1059⟩, ⟨0x105e, 0x1060⟩, ⟨0x1062, 0x1064⟩,
  ⟨0x1067, 0x106d⟩, ⟨0x1071, 0x1074⟩, ⟨0x1082, 0x108d⟩, ⟨0x108f, 0x109d⟩, ⟨0x1369, 0x137c⟩,
  ⟨0x1712, 0x1713⟩, ⟨0x1732, 0x1733⟩, ⟨0x1752, 0x1753⟩, ⟨0x1772, 0x1773⟩, ⟨0x17b6, 0x17c8⟩,
  ⟨0x17e0, 0x17e9⟩, ⟨0x17f0, 0x17f9⟩, ⟨0x1810, 0x1819⟩, ⟨0x18a9, 0x18a9⟩, ⟨0x1920, 0x192b⟩,
  ⟨0x1930, 0x1938⟩, ⟨0x1946, 0x194f⟩, ⟨0x19d0, 0x19da⟩, ⟨0x1a17, 0x1a1b⟩, ⟨0x1a55, 0x1a5e⟩,
  ⟨0x1a61, 0x1a74⟩, ⟨0x1a80, 0x1a89⟩, ⟨0x1a90, 0x1a99⟩, ⟨0x1abf, 0x1ac0⟩, ⟨0x1acc, 0x1ace⟩,
  ⟨0x1b00, 0x1b04⟩, ⟨0x1b35, 0x1b43⟩, ⟨0x1b50, 0x1b59⟩, ⟨0x1b80, 0x1b82⟩, ⟨0x1ba1, 0x1ba9⟩,
  ⟨0x1bac, 0x1bad⟩, ⟨0x1bb0, 0x1bb9⟩, ⟨0x1be7, 0x1bf1⟩, ⟨0x1c24, 0x1c36⟩, ⟨0x1c40, 0x1c49⟩,
  ⟨0x1c50, 0x1c59⟩, ⟨0x1dd3, 0x1df4⟩, ⟨0x2070, 0x2070⟩, ⟨0x2074, 0x2079⟩, ⟨0x2080, 0x2089⟩,
  ⟨0x2150, 0x215f⟩, ⟨0x2189, 0x2189⟩, ⟨0x2460, 0x249b⟩, ⟨0x24b6, 0x24ff⟩, ⟨0x2776, 0x2793⟩,
  ⟨0x2cfd, 0x2cfd⟩, ⟨0x2de0, 0x2dff⟩, ⟨0x2e2f, 0x2e2f⟩, ⟨0x3192, 0x3195⟩, ⟨0x3220, 0x3229⟩,
  ⟨0x3248, 0x324f⟩, ⟨0x3251, 0x325f⟩, ⟨0x3280, 0x3289⟩, ⟨0x32b1, 0x32bf⟩, ⟨0xa620, 0xa629⟩,
  ⟨0xa674, 0xa67b⟩, ⟨0xa69e, 0xa69f⟩, ⟨0xa7ce, 0xa7cf⟩, ⟨0xa7d2, 0xa7d2⟩, ⟨0xa7d4, 0xa7d4⟩,
  ⟨0xa7f1, 0xa7f1⟩, ⟨0xa802, 0xa802⟩, ⟨0xa80b, 0xa80b⟩, ⟨0xa823, 0xa827⟩, ⟨0xa830, 0xa835⟩,
  ⟨0xa880, 0xa881⟩, ⟨0xa8b4, 0xa8c3⟩, ⟨0xa8c5, 0xa8c5⟩, ⟨0xa8d0, 0xa8d9⟩, ⟨0xa8ff, 0xa909⟩,
  ⟨0xa926, 0xa92a⟩, ⟨0xa947, 0xa952⟩, ⟨0xa980, 0xa983⟩, ⟨0xa9b4, 0xa9bf⟩, ⟨0xa9d0, 0xa9d9⟩,
  ⟨0xa9e5, 0xa9e5⟩, ⟨0xa9f0, 0xa9f9⟩, ⟨0xaa29, 0xaa36⟩, ⟨0xaa43, 0xaa43⟩, ⟨0xaa4c, 0xaa4d⟩,
  ⟨0xaa50, 0xaa59⟩, ⟨0xaa7b, 0xaa7d⟩, ⟨0xaab0, 0xaab0⟩, ⟨0xaab2, 0xaab4⟩, ⟨0xaab7, 0xaab8⟩,
  ⟨0xaabe, 0xaabe⟩, ⟨0xaaeb, 0xaaef⟩, ⟨0xaaf5, 0xaaf5⟩, ⟨0xabe3, 0xabea⟩, ⟨0xabf0, 0xabf9⟩,
  ⟨0xfb1e, 0xfb1e⟩, ⟨0xfc5e, 0xfc63⟩, ⟨0xfdfa, 0xfdfb⟩, ⟨0xfe70, 0xfe70⟩, ⟨0xfe72, 0xfe72⟩,
  ⟨0xfe74, 0xfe74⟩, ⟨0xfe76, 0xfe76⟩, ⟨0xfe78, 0xfe78⟩, ⟨0xfe7a, 0xfe7a⟩, ⟨0xfe7c, 0xfe7c⟩,
  ⟨0xfe7e, 0xfe7e⟩, ⟨0xff10, 0xff19⟩, ⟨0xff9e, 0xff9f⟩, ⟨0x10107, 0x10133⟩, ⟨0x10175, 0x10178⟩,
  ⟨0x1018a, 0x1018b⟩, ⟨0x102e1, 0x102fb⟩, ⟨0x10320, 0x10323⟩, ⟨0x10376, 0x1037a⟩,
  ⟨0x104a0, 0x104a9⟩, ⟨0x10858, 0x1085f⟩, ⟨0x10879, 0x1087f⟩, ⟨0x108a7, 0x108af⟩,
  ⟨0x108fb, 0x108ff⟩, ⟨0x10916, 0x1091b⟩, ⟨0x10940, 0x10959⟩, ⟨0x109bc, 0x109bd⟩,
  ⟨0x109c0, 0x109cf⟩, ⟨0x109d2, 0x109ff⟩, ⟨0x10a01, 0x10a03⟩, ⟨0x10a05, 0x10a06⟩,
  ⟨0x10a0c, 0x10a0f⟩, ⟨0x10a40, 0x10a48⟩, ⟨0x10a7d, 0x10a7e⟩, ⟨0x10a9d, 0x10a9f⟩,
  ⟨0x10aeb, 0x10aef⟩, ⟨0x10b58, 0x10b5f⟩, ⟨0x10b78, 0x10b7f⟩, ⟨0x10ba9, 0x10baf⟩,
  ⟨0x10cfa, 0x10cff⟩, ⟨0x10d24, 0x10d27⟩, ⟨0x10d30, 0x10d39⟩, ⟨0x10d40, 0x10d49⟩,
  ⟨0x10d69, 0x10d69⟩, ⟨0x10e60, 0x10e7e⟩, ⟨0x10eab, 0x10eac⟩, ⟨0x10ec5, 0x10ec7⟩,
  ⟨0x10efa, 0x10efc⟩, ⟨0x10f1d, 0x10f26⟩, ⟨0x10f51, 0x10f54⟩, ⟨0x10fc5, 0x10fcb⟩,
  ⟨0x11000, 0x11002⟩, ⟨0x11038, 0x11045⟩, ⟨0x11052, 0x1106f⟩, ⟨0x11073, 0x11074⟩,
  ⟨0x11080, 0x11082⟩, ⟨0x110b0, 0x110b8⟩, ⟨0x110c2, 0x110c2⟩, ⟨0x110f0, 0x110f9⟩,
  ⟨0x11100, 0x11102⟩, ⟨0x11127, 0x11132⟩, ⟨0x11136, 0x1113f⟩, ⟨0x11145, 0x11146⟩,
  ⟨0x11180, 0x11182⟩, ⟨0x111b3, 0x111bf⟩, ⟨0x111ce, 0x111d9⟩, ⟨0x111e1, 0x111f4⟩,
  ⟨0x1122c, 0x11234⟩, ⟨0x11237, 0x11237⟩, ⟨0x1123e, 0x1123e⟩, ⟨0x11241, 0x11241⟩,
  ⟨0x112df, 0x112e8⟩, ⟨0x112f0, 0x112f9⟩, ⟨0x11300, 0x11303⟩, ⟨0x1133e, 0x11344⟩,
  ⟨0x11347, 0x11348⟩, ⟨0x1134b, 0x1134c⟩, ⟨0x11357, 0x11357⟩, ⟨0x11362, 0x11363⟩,
  ⟨0x113b8, 0x113c0⟩, ⟨0x113c2, 0x113c2⟩, ⟨0x113c5, 0x113c5⟩, ⟨0x113c7, 0x113ca⟩,
  ⟨0x113cc, 0x113cd⟩, ⟨0x11435, 0x11441⟩, ⟨0x11443, 0x11445⟩, ⟨0x11450, 0x11459⟩,
  ⟨0x114b0, 0x114c1⟩, ⟨0x114d0, 0x114d9⟩, ⟨0x115af, 0x115b5⟩, ⟨0x115b8, 0x115be⟩,
  ⟨0x115dc, 0x115dd⟩, ⟨0x11630, 0x1163e⟩, ⟨0x11640, 0x11640⟩, ⟨0x11650, 0x11659⟩,
  ⟨0x116ab, 0x116b5⟩, ⟨0x116c0, 0x116c9⟩, ⟨0x116d0, 0x116e3⟩, ⟨0x1171d, 0x1172a⟩,
  ⟨0x11730, 0x1173b⟩, ⟨0x1182c, 0x11838⟩, ⟨0x118e0, 0x118f2⟩, ⟨0x11930, 0x11935⟩,
  ⟨0x11937, 0x11938⟩, ⟨0x1193b, 0x1193c⟩, ⟨0x11940, 0x11940⟩, ⟨0x11942, 0x11942⟩,
  ⟨0x11950, 0x11959⟩, ⟨0x119d1, 0x119d7⟩, ⟨0x119da, 0x119df⟩, ⟨0x119e4, 0x119e4⟩,
  ⟨0x11a01, 0x11a0a⟩, ⟨0x11a35, 0x11a39⟩, ⟨0x11a3b, 0x11a3e⟩, ⟨0x11a51, 0x11a5b⟩,
  ⟨0x11a8a, 0x11a97⟩, ⟨0x11b60, 0x11b67⟩, ⟨0x11bf0, 0x11bf9⟩, ⟨0x11c2f, 0x11c36⟩,
  ⟨0x11c38, 0x11c3e⟩, ⟨0x11c50, 0x11c6c⟩, ⟨0x11c92, 0x11ca7⟩, ⟨0x11ca9, 0x11cb6⟩,
  ⟨0x11d31, 0x11d36⟩, ⟨0x11d3a, 0x11d3a⟩, ⟨0x11d3c, 0x11d3d⟩, ⟨0x11d3f, 0x11d41⟩,
  ⟨0x11d43, 0x11d43⟩, ⟨0x11d47, 0x11d47⟩, ⟨0x11d50, 0x11d59⟩, ⟨0x11d8a, 0x11d8e⟩,
  ⟨0x11d90, 0x11d91⟩, ⟨0x11d93, 0x11d96⟩, ⟨0x11da0, 0x11da9⟩, ⟨0x11db0, 0x11ddb⟩,
  ⟨0x11de0, 0x11de9⟩, ⟨0x11ef3, 0x11ef6⟩, ⟨0x11f00, 0x11f01⟩, ⟨0x11f03, 0x11f03⟩,
  ⟨0x11f34, 0x11f3a⟩, ⟨0x11f3e, 0x11f40⟩, ⟨0x11f50, 0x11f59⟩, ⟨0x11fc0, 0x11fd4⟩,
  ⟨0x1611e, 0x1612e⟩, ⟨0x16130, 0x16139⟩, ⟨0x16a60, 0x16a69⟩, ⟨0x16ac0, 0x16ac9⟩,
  ⟨0x16b50, 0x16b59⟩, ⟨0x16b5b, 0x16b61⟩, ⟨0x16d70, 0x16d79⟩, ⟨0x16e80, 0x16e96⟩,
  ⟨0x16ea0, 0x16eb8⟩, ⟨0x16ebb, 0x16ed3⟩, ⟨0x16f4f, 0x16f4f⟩, ⟨0x16f51, 0x16f87⟩,
  ⟨0x16f8f, 0x16f92⟩, ⟨0x16ff0, 0x16ff6⟩, ⟨0x187f8, 0x187ff⟩, ⟨0x18d09, 0x18d1e⟩,
  ⟨0x18d80, 0x18df2⟩, ⟨0x1bc9e, 0x1bc9e⟩, ⟨0x1ccf0, 0x1ccf9⟩, ⟨0x1d2c0, 0x1d2d3⟩,
  ⟨0x1d2e0, 0x1d2f3⟩, ⟨0x1d360, 0x1d378⟩, ⟨0x1d7ce, 0x1d7ff⟩, ⟨0x1e000, 0x1e006⟩,
  ⟨0x1e008, 0x1e018⟩, ⟨0x1e01b, 0x1e021⟩, ⟨0x1e023, 0x1e024⟩, ⟨0x1e026, 0x1e02a⟩,
  ⟨0x1e08f, 0x1e08f⟩, ⟨0x1e140, 0x1e149⟩, ⟨0x1e2f0, 0x1e2f9⟩, ⟨0x1e4f0, 0x1e4f9⟩,
  ⟨0x1e5f1, 0x1e5fa⟩, ⟨0x1e6c0, 0x1e6de⟩, ⟨0x1e6e0, 0x1e6f5⟩, ⟨0x1e6fe, 0x1e6ff⟩,
  ⟨0x1e8c7, 0x1e8cf⟩, ⟨0x1e947, 0x1e947⟩, ⟨0x1e950, 0x1e959⟩, ⟨0x1ec71, 0x1ecab⟩,
  ⟨0x1ecad, 0x1ecaf⟩, ⟨0x1ecb1, 0x1ecb4⟩, ⟨0x1ed01, 0x1ed2d⟩, ⟨0x1ed2f, 0x1ed3d⟩,
  ⟨0x1f100, 0x1f10c⟩, ⟨0x1f130, 0x1f149⟩, ⟨0x1f150, 0x1f169⟩, ⟨0x1f170, 0x1f189⟩,
  ⟨0x1fbf0, 0x1fbf9⟩, ⟨0x2b73a, 0x2b73f⟩, ⟨0x2cea2, 0x2cead⟩, ⟨0x323b0, 0x33479⟩]

/-- The script capital P and the estimated symbol start identifiers but are no letters. -/
def isLetterlike (c : Char) : Bool := c == '\u2118' || c == '\u212e'

def isAlphanumeric (c : Char) : Bool :=
  c.isAlphanum || (inRanges identifierStartRanges c && !isLetterlike c) ||
    inRanges alphanumericRanges c

end StackScript.Text
