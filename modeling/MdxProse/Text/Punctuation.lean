import MdxProse.Text.Toggles

/-! # Punctuation and symbols

The general categories `P` and `S` of Unicode 14. Emphasis looks at them on both sides of a run of
markers; an escape only ever touches the ASCII ones.
-/

namespace MdxProse.Text

/-- Code points at which being punctuation or a symbol changes. -/
def punctuationToggles : List Nat := [
  0x21, 0x30, 0x3A, 0x41, 0x5B, 0x61, 0x7B, 0x7F, 0xA1, 0xAA, 0xAB, 0xAD, 0xAE, 0xB2, 0xB4, 0xB5,
  0xB6, 0xB9, 0xBB, 0xBC, 0xBF, 0xC0, 0xD7, 0xD8, 0xF7, 0xF8, 0x2C2, 0x2C6, 0x2D2, 0x2E0, 0x2E5,
  0x2EC, 0x2ED, 0x2EE, 0x2EF, 0x300, 0x375, 0x376, 0x37E, 0x37F, 0x384, 0x386, 0x387, 0x388,
  0x3F6, 0x3F7, 0x482, 0x483, 0x55A, 0x560, 0x589, 0x58B, 0x58D, 0x590, 0x5BE, 0x5BF, 0x5C0,
  0x5C1, 0x5C3, 0x5C4, 0x5C6, 0x5C7, 0x5F3, 0x5F5, 0x606, 0x610, 0x61B, 0x61C, 0x61D, 0x620,
  0x66A, 0x66E, 0x6D4, 0x6D5, 0x6DE, 0x6DF, 0x6E9, 0x6EA, 0x6FD, 0x6FF, 0x700, 0x70E, 0x7F6,
  0x7FA, 0x7FE, 0x800, 0x830, 0x83F, 0x85E, 0x85F, 0x888, 0x889, 0x964, 0x966, 0x970, 0x971,
  0x9F2, 0x9F4, 0x9FA, 0x9FC, 0x9FD, 0x9FE, 0xA76, 0xA77, 0xAF0, 0xAF2, 0xB70, 0xB71, 0xBF3,
  0xBFB, 0xC77, 0xC78, 0xC7F, 0xC80, 0xC84, 0xC85, 0xD4F, 0xD50, 0xD79, 0xD7A, 0xDF4, 0xDF5,
  0xE3F, 0xE40, 0xE4F, 0xE50, 0xE5A, 0xE5C, 0xF01, 0xF18, 0xF1A, 0xF20, 0xF34, 0xF35, 0xF36,
  0xF37, 0xF38, 0xF39, 0xF3A, 0xF3E, 0xF85, 0xF86, 0xFBE, 0xFC6, 0xFC7, 0xFCD, 0xFCE, 0xFDB,
  0x104A, 0x1050, 0x109E, 0x10A0, 0x10FB, 0x10FC, 0x1360, 0x1369, 0x1390, 0x139A, 0x1400, 0x1401,
  0x166D, 0x166F, 0x169B, 0x169D, 0x16EB, 0x16EE, 0x1735, 0x1737, 0x17D4, 0x17D7, 0x17D8, 0x17DC,
  0x1800, 0x180B, 0x1940, 0x1941, 0x1944, 0x1946, 0x19DE, 0x1A00, 0x1A1E, 0x1A20, 0x1AA0, 0x1AA7,
  0x1AA8, 0x1AAE, 0x1B5A, 0x1B6B, 0x1B74, 0x1B7F, 0x1BFC, 0x1C00, 0x1C3B, 0x1C40, 0x1C7E, 0x1C80,
  0x1CC0, 0x1CC8, 0x1CD3, 0x1CD4, 0x1FBD, 0x1FBE, 0x1FBF, 0x1FC2, 0x1FCD, 0x1FD0, 0x1FDD, 0x1FE0,
  0x1FED, 0x1FF0, 0x1FFD, 0x1FFF, 0x2010, 0x2028, 0x2030, 0x205F, 0x207A, 0x207F, 0x208A, 0x208F,
  0x20A0, 0x20C1, 0x2100, 0x2102, 0x2103, 0x2107, 0x2108, 0x210A, 0x2114, 0x2115, 0x2116, 0x2119,
  0x211E, 0x2124, 0x2125, 0x2126, 0x2127, 0x2128, 0x2129, 0x212A, 0x212E, 0x212F, 0x213A, 0x213C,
  0x2140, 0x2145, 0x214A, 0x214E, 0x214F, 0x2150, 0x218A, 0x218C, 0x2190, 0x2427, 0x2440, 0x244B,
  0x249C, 0x24EA, 0x2500, 0x2776, 0x2794, 0x2B74, 0x2B76, 0x2B96, 0x2B97, 0x2C00, 0x2CE5, 0x2CEB,
  0x2CF9, 0x2CFD, 0x2CFE, 0x2D00, 0x2D70, 0x2D71, 0x2E00, 0x2E2F, 0x2E30, 0x2E5E, 0x2E80, 0x2E9A,
  0x2E9B, 0x2EF4, 0x2F00, 0x2FD6, 0x2FF0, 0x2FFC, 0x3001, 0x3005, 0x3008, 0x3021, 0x3030, 0x3031,
  0x3036, 0x3038, 0x303D, 0x3040, 0x309B, 0x309D, 0x30A0, 0x30A1, 0x30FB, 0x30FC, 0x3190, 0x3192,
  0x3196, 0x31A0, 0x31C0, 0x31E4, 0x3200, 0x321F, 0x322A, 0x3248, 0x3250, 0x3251, 0x3260, 0x3280,
  0x328A, 0x32B1, 0x32C0, 0x3400, 0x4DC0, 0x4E00, 0xA490, 0xA4C7, 0xA4FE, 0xA500, 0xA60D, 0xA610,
  0xA673, 0xA674, 0xA67E, 0xA67F, 0xA6F2, 0xA6F8, 0xA700, 0xA717, 0xA720, 0xA722, 0xA789, 0xA78B,
  0xA828, 0xA82C, 0xA836, 0xA83A, 0xA874, 0xA878, 0xA8CE, 0xA8D0, 0xA8F8, 0xA8FB, 0xA8FC, 0xA8FD,
  0xA92E, 0xA930, 0xA95F, 0xA960, 0xA9C1, 0xA9CE, 0xA9DE, 0xA9E0, 0xAA5C, 0xAA60, 0xAA77, 0xAA7A,
  0xAADE, 0xAAE0, 0xAAF0, 0xAAF2, 0xAB5B, 0xAB5C, 0xAB6A, 0xAB6C, 0xABEB, 0xABEC, 0xFB29, 0xFB2A,
  0xFBB2, 0xFBC3, 0xFD3E, 0xFD50, 0xFDCF, 0xFDD0, 0xFDFC, 0xFE00, 0xFE10, 0xFE1A, 0xFE30, 0xFE53,
  0xFE54, 0xFE67, 0xFE68, 0xFE6C, 0xFF01, 0xFF10, 0xFF1A, 0xFF21, 0xFF3B, 0xFF41, 0xFF5B, 0xFF66,
  0xFFE0, 0xFFE7, 0xFFE8, 0xFFEF, 0xFFFC, 0xFFFE, 0x10100, 0x10103, 0x10137, 0x10140, 0x10179,
  0x1018A, 0x1018C, 0x1018F, 0x10190, 0x1019D, 0x101A0, 0x101A1, 0x101D0, 0x101FD, 0x1039F,
  0x103A0, 0x103D0, 0x103D1, 0x1056F, 0x10570, 0x10857, 0x10858, 0x10877, 0x10879, 0x1091F,
  0x10920, 0x1093F, 0x10940, 0x10A50, 0x10A59, 0x10A7F, 0x10A80, 0x10AC8, 0x10AC9, 0x10AF0,
  0x10AF7, 0x10B39, 0x10B40, 0x10B99, 0x10B9D, 0x10EAD, 0x10EAE, 0x10F55, 0x10F5A, 0x10F86,
  0x10F8A, 0x11047, 0x1104E, 0x110BB, 0x110BD, 0x110BE, 0x110C2, 0x11140, 0x11144, 0x11174,
  0x11176, 0x111C5, 0x111C9, 0x111CD, 0x111CE, 0x111DB, 0x111DC, 0x111DD, 0x111E0, 0x11238,
  0x1123E, 0x112A9, 0x112AA, 0x1144B, 0x11450, 0x1145A, 0x1145C, 0x1145D, 0x1145E, 0x114C6,
  0x114C7, 0x115C1, 0x115D8, 0x11641, 0x11644, 0x11660, 0x1166D, 0x116B9, 0x116BA, 0x1173C,
  0x11740, 0x1183B, 0x1183C, 0x11944, 0x11947, 0x119E2, 0x119E3, 0x11A3F, 0x11A47, 0x11A9A,
  0x11A9D, 0x11A9E, 0x11AA3, 0x11C41, 0x11C46, 0x11C70, 0x11C72, 0x11EF7, 0x11EF9, 0x11FD5,
  0x11FF2, 0x11FFF, 0x12000, 0x12470, 0x12475, 0x12FF1, 0x12FF3, 0x16A6E, 0x16A70, 0x16AF5,
  0x16AF6, 0x16B37, 0x16B40, 0x16B44, 0x16B46, 0x16E97, 0x16E9B, 0x16FE2, 0x16FE3, 0x1BC9C,
  0x1BC9D, 0x1BC9F, 0x1BCA0, 0x1CF50, 0x1CFC4, 0x1D000, 0x1D0F6, 0x1D100, 0x1D127, 0x1D129,
  0x1D165, 0x1D16A, 0x1D16D, 0x1D183, 0x1D185, 0x1D18C, 0x1D1AA, 0x1D1AE, 0x1D1EB, 0x1D200,
  0x1D242, 0x1D245, 0x1D246, 0x1D300, 0x1D357, 0x1D6C1, 0x1D6C2, 0x1D6DB, 0x1D6DC, 0x1D6FB,
  0x1D6FC, 0x1D715, 0x1D716, 0x1D735, 0x1D736, 0x1D74F, 0x1D750, 0x1D76F, 0x1D770, 0x1D789,
  0x1D78A, 0x1D7A9, 0x1D7AA, 0x1D7C3, 0x1D7C4, 0x1D800, 0x1DA00, 0x1DA37, 0x1DA3B, 0x1DA6D,
  0x1DA75, 0x1DA76, 0x1DA84, 0x1DA85, 0x1DA8C, 0x1E14F, 0x1E150, 0x1E2FF, 0x1E300, 0x1E95E,
  0x1E960, 0x1ECAC, 0x1ECAD, 0x1ECB0, 0x1ECB1, 0x1ED2E, 0x1ED2F, 0x1EEF0, 0x1EEF2, 0x1F000,
  0x1F02C, 0x1F030, 0x1F094, 0x1F0A0, 0x1F0AF, 0x1F0B1, 0x1F0C0, 0x1F0C1, 0x1F0D0, 0x1F0D1,
  0x1F0F6, 0x1F10D, 0x1F1AE, 0x1F1E6, 0x1F203, 0x1F210, 0x1F23C, 0x1F240, 0x1F249, 0x1F250,
  0x1F252, 0x1F260, 0x1F266, 0x1F300, 0x1F6D8, 0x1F6DD, 0x1F6ED, 0x1F6F0, 0x1F6FD, 0x1F700,
  0x1F774, 0x1F780, 0x1F7D9, 0x1F7E0, 0x1F7EC, 0x1F7F0, 0x1F7F1, 0x1F800, 0x1F80C, 0x1F810,
  0x1F848, 0x1F850, 0x1F85A, 0x1F860, 0x1F888, 0x1F890, 0x1F8AE, 0x1F8B0, 0x1F8B2, 0x1F900,
  0x1FA54, 0x1FA60, 0x1FA6E, 0x1FA70, 0x1FA75, 0x1FA78, 0x1FA7D, 0x1FA80, 0x1FA87, 0x1FA90,
  0x1FAAD, 0x1FAB0, 0x1FABB, 0x1FAC0, 0x1FAC6, 0x1FAD0, 0x1FADA, 0x1FAE0, 0x1FAE8, 0x1FAF0,
  0x1FAF7, 0x1FB00, 0x1FB93, 0x1FB94, 0x1FBCB]

/-- Punctuation or a symbol of any script. -/
def isPunctuation (c : Char) : Bool :=
  toggled punctuationToggles c

/-- ASCII punctuation: the characters that a backslash can escape. -/
def isAsciiPunctuation (c : Char) : Bool :=
  ('!' ≤ c && c ≤ '/') || (':' ≤ c && c ≤ '@') || ('[' ≤ c && c ≤ '\x60') || ('{' ≤ c && c ≤ '~')

end MdxProse.Text
