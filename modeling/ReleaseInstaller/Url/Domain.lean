import ReleaseInstaller.Text.Quoted

/-! The characters of domain names: which ones are read as a plain letter, digit, hyphen or dot, and
which ones do not count. -/
namespace ReleaseInstaller.Url
open Text

/-- Runs of characters that a domain name reads as consecutive characters of ASCII: where the run
begins, what its first character is read as, and its length. -/
def asciiRuns : List (Nat × Char × Nat) :=
  [(0x41, 'a', 26), (0xaa, 'a', 1), (0xb2, '2', 2), (0xb9, '1', 1), (0xba, 'o', 1),
    (0x17f, 's', 1), (0x2b0, 'h', 1), (0x2b2, 'j', 1), (0x2b3, 'r', 1), (0x2b7, 'w', 1),
    (0x2b8, 'y', 1), (0x2e1, 'l', 1), (0x2e2, 's', 1), (0x2e3, 'x', 1), (0x1d2c, 'a', 1),
    (0x1d2e, 'b', 1), (0x1d30, 'd', 2), (0x1d33, 'g', 8), (0x1d3c, 'o', 1), (0x1d3e, 'p', 1),
    (0x1d3f, 'r', 1), (0x1d40, 't', 2), (0x1d42, 'w', 1), (0x1d43, 'a', 1), (0x1d47, 'b', 1),
    (0x1d48, 'd', 2), (0x1d4d, 'g', 1), (0x1d4f, 'k', 1), (0x1d50, 'm', 1), (0x1d52, 'o', 1),
    (0x1d56, 'p', 1), (0x1d57, 't', 2), (0x1d5b, 'v', 1), (0x1d62, 'i', 1), (0x1d63, 'r', 1),
    (0x1d64, 'u', 2), (0x1d9c, 'c', 1), (0x1da0, 'f', 1), (0x1dbb, 'z', 1), (0x2024, '.', 1),
    (0x2070, '0', 1), (0x2071, 'i', 1), (0x2074, '4', 6), (0x207f, 'n', 1), (0x2080, '0', 10),
    (0x2090, 'a', 1), (0x2091, 'e', 1), (0x2092, 'o', 1), (0x2093, 'x', 1), (0x2095, 'h', 1),
    (0x2096, 'k', 4), (0x209a, 'p', 1), (0x209b, 's', 2), (0x2102, 'c', 1), (0x210a, 'g', 2),
    (0x210c, 'h', 1), (0x210d, 'h', 1), (0x210e, 'h', 1), (0x2110, 'i', 1), (0x2111, 'i', 1),
    (0x2112, 'l', 1), (0x2113, 'l', 1), (0x2115, 'n', 1), (0x2119, 'p', 3), (0x211c, 'r', 1),
    (0x211d, 'r', 1), (0x2124, 'z', 1), (0x2128, 'z', 1), (0x212a, 'k', 1), (0x212c, 'b', 2),
    (0x212f, 'e', 1), (0x2130, 'e', 2), (0x2133, 'm', 1), (0x2134, 'o', 1), (0x2139, 'i', 1),
    (0x2145, 'd', 1), (0x2146, 'd', 2), (0x2148, 'i', 2), (0x2160, 'i', 1), (0x2164, 'v', 1),
    (0x2169, 'x', 1), (0x216c, 'l', 1), (0x216d, 'c', 2), (0x216f, 'm', 1), (0x2170, 'i', 1),
    (0x2174, 'v', 1), (0x2179, 'x', 1), (0x217c, 'l', 1), (0x217d, 'c', 2), (0x217f, 'm', 1),
    (0x2460, '1', 9), (0x24b6, 'a', 26), (0x24d0, 'a', 26), (0x24ea, '0', 1), (0x2c7c, 'j', 1),
    (0x2c7d, 'v', 1), (0x3002, '.', 1), (0xa7f2, 'c', 1), (0xa7f3, 'f', 1), (0xa7f4, 'q', 1),
    (0xfe52, '.', 1), (0xfe63, '-', 1), (0xff0d, '-', 2), (0xff10, '0', 10), (0xff21, 'a', 26),
    (0xff41, 'a', 26), (0xff61, '.', 1), (0x107a5, 'q', 1), (0x1d400, 'a', 26), (0x1d41a, 'a', 26),
    (0x1d434, 'a', 26), (0x1d44e, 'a', 7), (0x1d456, 'i', 18), (0x1d468, 'a', 26),
    (0x1d482, 'a', 26), (0x1d49c, 'a', 1), (0x1d49e, 'c', 2), (0x1d4a2, 'g', 1), (0x1d4a5, 'j', 2),
    (0x1d4a9, 'n', 4), (0x1d4ae, 's', 8), (0x1d4b6, 'a', 4), (0x1d4bb, 'f', 1), (0x1d4bd, 'h', 7),
    (0x1d4c5, 'p', 11), (0x1d4d0, 'a', 26), (0x1d4ea, 'a', 26), (0x1d504, 'a', 2),
    (0x1d507, 'd', 4), (0x1d50d, 'j', 8), (0x1d516, 's', 7), (0x1d51e, 'a', 26), (0x1d538, 'a', 2),
    (0x1d53b, 'd', 4), (0x1d540, 'i', 5), (0x1d546, 'o', 1), (0x1d54a, 's', 7), (0x1d552, 'a', 26),
    (0x1d56c, 'a', 26), (0x1d586, 'a', 26), (0x1d5a0, 'a', 26), (0x1d5ba, 'a', 26),
    (0x1d5d4, 'a', 26), (0x1d5ee, 'a', 26), (0x1d608, 'a', 26), (0x1d622, 'a', 26),
    (0x1d63c, 'a', 26), (0x1d656, 'a', 26), (0x1d670, 'a', 26), (0x1d68a, 'a', 26),
    (0x1d7ce, '0', 10), (0x1d7d8, '0', 10), (0x1d7e2, '0', 10), (0x1d7ec, '0', 10),
    (0x1d7f6, '0', 10), (0x1f12b, 'c', 1), (0x1f12c, 'r', 1), (0x1f130, 'a', 26),
    (0x1fbf0, '0', 10)]

/-- Characters that a domain name drops. -/
def droppedRanges : List CodeRange :=
  [(0xad, 0xad), (0x34f, 0x34f), (0x180b, 0x180d), (0x180f, 0x180f), (0x200b, 0x200b),
    (0x2060, 0x2060), (0x2064, 0x2064), (0xfe00, 0xfe0f), (0xfeff, 0xfeff), (0x1bca0, 0x1bca3),
    (0xe0100, 0xe01ef)]

/-- What a domain name reads a character as, if that is ASCII: nothing, or one character. -/
def asciiForm? (c : Char) : Option (List Char) :=
  match asciiRuns.find? fun (start, _, length) => start ≤ c.toNat && c.toNat < start + length with
  | some (start, first, _) => some [Char.ofNat (first.toNat + (c.toNat - start))]
  | none =>
    if c.toNat < 0x80 then some [c]
    else if inRanges droppedRanges c then some []
    else none

/-- The domain name in ASCII, in lower case; none if a character of it has no form there. -/
def asciiDomain? (name : List Char) : Option (List Char) :=
  (name.mapM asciiForm?).map List.flatten

end ReleaseInstaller.Url
