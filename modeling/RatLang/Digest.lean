import RatLang.Text.Numeral

/-!
# The MD5 digest

The digest of a byte string: the message is padded to whole blocks of 64 bytes, and 64 steps per
block stir its sixteen words into four words of state.
-/
namespace RatLang.Digest

/-- The additive constants of the 64 steps, the whole parts of `2^32 * |sin (i + 1)|`. -/
def addends : Array UInt32 :=
  #[0xd76aa478, 0xe8c7b756, 0x242070db, 0xc1bdceee, 0xf57c0faf, 0x4787c62a, 0xa8304613, 0xfd469501,
    0x698098d8, 0x8b44f7af, 0xffff5bb1, 0x895cd7be, 0x6b901122, 0xfd987193, 0xa679438e, 0x49b40821,
    0xf61e2562, 0xc040b340, 0x265e5a51, 0xe9b6c7aa, 0xd62f105d, 0x02441453, 0xd8a1e681, 0xe7d3fbc8,
    0x21e1cde6, 0xc33707d6, 0xf4d50d87, 0x455a14ed, 0xa9e3e905, 0xfcefa3f8, 0x676f02d9, 0x8d2a4c8a,
    0xfffa3942, 0x8771f681, 0x6d9d6122, 0xfde5380c, 0xa4beea44, 0x4bdecfa9, 0xf6bb4b60, 0xbebfbc70,
    0x289b7ec6, 0xeaa127fa, 0xd4ef3085, 0x04881d05, 0xd9d4d039, 0xe6db99e5, 0x1fa27cf8, 0xc4ac5665,
    0xf4292244, 0x432aff97, 0xab9423a7, 0xfc93a039, 0x655b59c3, 0x8f0ccc92, 0xffeff47d, 0x85845dd1,
    0x6fa87e4f, 0xfe2ce6e0, 0xa3014314, 0x4e0811a1, 0xf7537e82, 0xbd3af235, 0x2ad7d2bb, 0xeb86d391]

/-- The rotation of step `i`. -/
def rotation (i : Nat) : UInt32 :=
  (#[#[7, 12, 17, 22], #[5, 9, 14, 20], #[4, 11, 16, 23], #[6, 10, 15, 21]].getD (i / 16) #[]).getD
    (i % 4) 0

/-- The four words of state. -/
structure State where
  a : UInt32
  b : UInt32
  c : UInt32
  d : UInt32

/-- The state before the first block. -/
def State.initial : State := ⟨0x67452301, 0xefcdab89, 0x98badcfe, 0x10325476⟩

/-- A word rotated to the left. -/
def rotate (w n : UInt32) : UInt32 := (w <<< n) ||| (w >>> (32 - n))

/-- The mixing function of step `i`. -/
def mix (i : Nat) (s : State) : UInt32 :=
  match i / 16 with
  | 0 => (s.b &&& s.c) ||| (~~~s.b &&& s.d)
  | 1 => (s.d &&& s.b) ||| (~~~s.d &&& s.c)
  | 2 => s.b ^^^ s.c ^^^ s.d
  | _ => s.c ^^^ (s.b ||| ~~~s.d)

/-- The word of the block that step `i` takes. -/
def wordIndex (i : Nat) : Nat :=
  match i / 16 with
  | 0 => i
  | 1 => (5 * i + 1) % 16
  | 2 => (3 * i + 5) % 16
  | _ => 7 * i % 16

/-- One step. -/
def step (words : Array UInt32) (s : State) (i : Nat) : State :=
  let sum := s.a + mix i s + addends.getD i 0 + words.getD (wordIndex i) 0
  ⟨s.d, s.b + rotate sum (rotation i), s.b, s.c⟩

/-- Four bytes as a word, the lowest first. -/
def word : Text → UInt32
  | [] => 0
  | b :: rest => b.toUInt32 + word rest * 256

/-- The words of a text, four bytes each. -/
def words : Text → List UInt32
  | a :: b :: c :: d :: rest => word [a, b, c, d] :: words rest
  | _ => []

/-- The lowest `n` bytes of a number, the lowest first. -/
def littleEndian : Nat → Nat → Text
  | 0, _ => []
  | n + 1, value => value.toUInt8 :: littleEndian n (value / 256)

/-- The message with its padding: a one bit, zeros, and the number of bits. -/
def padded (t : Text) : Text :=
  t ++ 0x80 :: List.replicate ((119 - t.length % 64) % 64) 0 ++ littleEndian 8 (8 * t.length)

/-- One block. -/
def block (s : State) (ws : List UInt32) : State :=
  let t := (List.range 64).foldl (step ws.toArray) s
  ⟨s.a + t.a, s.b + t.b, s.c + t.c, s.d + t.d⟩

/-- The blocks of sixteen words, one after another. -/
def blocks (s : State) : List UInt32 → State
  | [] => s
  | w :: ws => blocks (block s ((w :: ws).take 16)) (ws.drop 15)
termination_by ws => ws.length
decreasing_by simp only [List.length_drop, List.length_cons]; omega

end Digest

/-- The MD5 digest of a text in hexadecimal. -/
def md5 (t : Text) : Text :=
  let s := Digest.blocks .initial (Digest.words (Digest.padded t))
  [s.a, s.b, s.c, s.d].flatMap fun w =>
    (Digest.littleEndian 4 w.toNat).flatMap fun b => hexDigits 2 b.toNat

end RatLang
