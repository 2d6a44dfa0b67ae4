/-! # Text in bytes

Reading bytes as UTF-8 text, strictly or with a replacement character for each maximal faulty
part, and reading one line of a byte stream. -/

namespace ScriptEngine.Text

/-- Strict reading: no text if some byte is out of place. -/
def decode? (bytes : List UInt8) : Option String :=
  String.fromUTF8? (ByteArray.mk bytes.toArray)

/-- The range that the byte after `lead` must lie in, and how many continuation bytes follow
`lead`; none if `lead` starts no character. -/
def continuation? (lead : Nat) : Option (Nat × Nat × Nat) :=
  if 0xC2 ≤ lead ∧ lead ≤ 0xDF then some (0x80, 0xBF, 1)
  else if lead = 0xE0 then some (0xA0, 0xBF, 2)
  else if lead = 0xED then some (0x80, 0x9F, 2)
  else if 0xE1 ≤ lead ∧ lead ≤ 0xEF then some (0x80, 0xBF, 2)
  else if lead = 0xF0 then some (0x90, 0xBF, 3)
  else if lead = 0xF4 then some (0x80, 0x8F, 3)
  else if 0xF1 ≤ lead ∧ lead ≤ 0xF3 then some (0x80, 0xBF, 3)
  else none

/-- What a lenient reader is in the middle of: nothing, or a character with `value` so far and
`missing` bytes to come, the next between `low` and `high`. -/
inductive Pending where
  | idle
  | char (value low high missing : Nat)

/-- Starts a character at a byte. -/
def Pending.start (byte : Nat) : List Char × Pending :=
  if byte < 0x80 then ([Char.ofNat byte], .idle)
  else
    match continuation? byte with
    | some (low, high, missing) =>
      let bits := if missing = 1 then byte % 0x20 else if missing = 2 then byte % 0x10 else byte % 8
      ([], .char bits low high missing)
    | none => (['\ufffd'], .idle)

/-- Lenient reading: a part that starts no character or breaks off is one replacement character. -/
def decodeLenient : Pending → List UInt8 → List Char
  | .idle, [] => []
  | .char .., [] => ['\ufffd']
  | .idle, b :: bs =>
    let (out, next) := Pending.start b.toNat
    out ++ decodeLenient next bs
  | .char value low high missing, b :: bs =>
    let n := b.toNat
    if low ≤ n ∧ n ≤ high then
      let value := value * 64 + n % 64
      if missing = 1 then Char.ofNat value :: decodeLenient .idle bs
      else decodeLenient (.char value 0x80 0xBF (missing - 1)) bs
    else
      let (out, next) := Pending.start n
      '\ufffd' :: (out ++ decodeLenient next bs)

def lenient (bytes : List UInt8) : String :=
  String.ofList (decodeLenient .idle bytes)

/-- The first line of a byte stream with its line feed, and the rest. -/
def takeLine : List UInt8 → List UInt8 × List UInt8
  | [] => ([], [])
  | b :: bs =>
    if b = 10 then ([b], bs)
    else let (line, rest) := takeLine bs; (b :: line, rest)

end ScriptEngine.Text
