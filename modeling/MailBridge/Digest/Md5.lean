/-! # MD5

The message digest of RFC 1321: a text of any length gives sixteen bytes. It names directories
here, and protects nothing.
-/

namespace MailBridge.Digest

/-- The four words that are carried from block to block. -/
structure Md5State where
  a : UInt32
  b : UInt32
  c : UInt32
  d : UInt32

namespace Md5

/-- The words before the first block. -/
def start : Md5State := ⟨0x67452301, 0xEFCDAB89, 0x98BADCFE, 0x10325476⟩

/-- The constant of each step: the whole part of 2^32 times the absolute sine of its number. -/
def sines : Array UInt32 :=
  #[
   0xD76AA478, 0xE8C7B756, 0x242070DB, 0xC1BDCEEE, 0xF57C0FAF, 0x4787C62A,
   0xA8304613, 0xFD469501, 0x698098D8, 0x8B44F7AF, 0xFFFF5BB1, 0x895CD7BE,
   0x6B901122, 0xFD987193, 0xA679438E, 0x49B40821, 0xF61E2562, 0xC040B340,
   0x265E5A51, 0xE9B6C7AA, 0xD62F105D, 0x02441453, 0xD8A1E681, 0xE7D3FBC8,
   0x21E1CDE6, 0xC33707D6, 0xF4D50D87, 0x455A14ED, 0xA9E3E905, 0xFCEFA3F8,
   0x676F02D9, 0x8D2A4C8A, 0xFFFA3942, 0x8771F681, 0x6D9D6122, 0xFDE5380C,
   0xA4BEEA44, 0x4BDECFA9, 0xF6BB4B60, 0xBEBFBC70, 0x289B7EC6, 0xEAA127FA,
   0xD4EF3085, 0x04881D05, 0xD9D4D039, 0xE6DB99E5, 0x1FA27CF8, 0xC4AC5665,
   0xF4292244, 0x432AFF97, 0xAB9423A7, 0xFC93A039, 0x655B59C3, 0x8F0CCC92,
   0xFFEFF47D, 0x85845DD1, 0x6FA87E4F, 0xFE2CE6E0, 0xA3014314, 0x4E0811A1,
   0xF7537E82, 0xBD3AF235, 0x2AD7D2BB, 0xEB86D391
  ]

/-- How far a step rotates its word. -/
def rotation (step : Nat) : UInt32 :=
  match step / 16, step % 4 with
  | 0, 0 => 7 | 0, 1 => 12 | 0, 2 => 17 | 0, _ => 22
  | 1, 0 => 5 | 1, 1 => 9 | 1, 2 => 14 | 1, _ => 20
  | 2, 0 => 4 | 2, 1 => 11 | 2, 2 => 16 | 2, _ => 23
  | _, 0 => 6 | _, 1 => 10 | _, 2 => 15 | _, _ => 21

/-- The word with its bits moved up, those that fall off coming in from below. -/
def rotate (w amount : UInt32) : UInt32 := (w <<< amount) ||| (w >>> (32 - amount))

/-- One step of a block: mixes a word of the block into the state. -/
def mix (block : Array UInt32) (s : Md5State) (step : Nat) : Md5State :=
  let (f, word) :=
    match step / 16 with
    | 0 => ((s.b &&& s.c) ||| ((~~~s.b) &&& s.d), step)
    | 1 => ((s.d &&& s.b) ||| ((~~~s.d) &&& s.c), (5 * step + 1) % 16)
    | 2 => (s.b ^^^ s.c ^^^ s.d, (3 * step + 5) % 16)
    | _ => (s.c ^^^ (s.b ||| (~~~s.d)), (7 * step) % 16)
  let sum := f + s.a + sines.getD step 0 + block.getD word 0
  ⟨s.d, s.b + rotate sum (rotation step), s.b, s.c⟩

def compress (s : Md5State) (block : Array UInt32) : Md5State :=
  let t := (List.range 64).foldl (mix block) s
  ⟨s.a + t.a, s.b + t.b, s.c + t.c, s.d + t.d⟩

/-- The bytes of a number, the least significant first. -/
def littleEndian (bytes n : Nat) : List UInt8 :=
  (List.range bytes).map fun i => UInt8.ofNat (n / Nat.pow 256 i)

/-- The message with a one bit, zeros up to a whole number of blocks, and its length in bits. -/
def padded (message : List UInt8) : List UInt8 :=
  let zeros := (119 - message.length % 64) % 64
  message ++ 0x80 :: List.replicate zeros 0 ++ littleEndian 8 (8 * message.length)

/-- Groups bytes by four into words, the least significant byte first. -/
def toWords : List UInt8 → List UInt32
  | a :: b :: c :: d :: rest =>
    (a.toUInt32 ||| (b.toUInt32 <<< 8) ||| (c.toUInt32 <<< 16) ||| (d.toUInt32 <<< 24)) ::
      toWords rest
  | _ => []

/-- Runs over the given number of blocks of sixteen words. -/
def compressAll : Nat → List UInt32 → Md5State → Md5State
  | 0, _, s => s
  | blocks + 1, words, s =>
    compressAll blocks (words.drop 16) (compress s (words.take 16).toArray)

/-- The sixteen bytes of the digest. -/
def digest (message : List UInt8) : List UInt8 :=
  let words := toWords (padded message)
  let s := compressAll (words.length / 16) words start
  [s.a, s.b, s.c, s.d].flatMap fun w => littleEndian 4 w.toNat

def hexDigit (n : Nat) : Char :=
  if n < 10 then Char.ofNat ('0'.toNat + n) else Char.ofNat ('a'.toNat + (n - 10))

end Md5

/-- The digest of a text, in digits of base sixteen. -/
def md5 (s : String) : String :=
  String.ofList ((Md5.digest s.toUTF8.toList).flatMap fun byte =>
    [Md5.hexDigit (byte.toNat / 16), Md5.hexDigit (byte.toNat % 16)])

end MailBridge.Digest
