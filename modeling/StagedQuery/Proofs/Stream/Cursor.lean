import StagedQuery.Proofs.Stream.Column
import StagedQuery.Stream.Reader

/-!
# Columns read by position

A column can be read with positions into its bitmap and its values: the bytes of a number lie
between two positions, and the flag of a row is a bit of the byte at a position. Both are computed
from counts that the bytes themselves announce. `Column.Positional` spells this out: a position that
is not there is an outcome of its own, `Stop.outOfRange`.

Reading by position is reading from the front (`Column.Positional.decode_eq`), so there is no such
position, whatever the bytes are: each access is behind a check that covers it.
-/

namespace StagedQuery.Column.Positional

/-! ### Positions -/

/-- Why reading stops. -/
inductive Stop
  /-- There is nothing at a position. -/
  | outOfRange
  /-- The bytes are not what they should be. -/
  | refused (why : DecodeError)
  deriving DecidableEq, Repr

/-- The byte at a position. -/
def byteAt (bytes : Bytes) (i : Nat) : Except Stop UInt8 :=
  match bytes[i]? with
  | some b => .ok b
  | none => .error .outOfRange

/-- The bytes between two positions. -/
def slice (bytes : Bytes) (i j : Nat) : Except Stop Bytes :=
  if i ≤ j ∧ j ≤ bytes.length then .ok ((bytes.drop i).take (j - i)) else .error .outOfRange

/-- Bytes, and how many of them were taken. -/
structure Cursor where
  bytes : Bytes
  pos : Nat := 0

namespace Cursor

/-- The number of bytes behind the position; behind the last byte there is no such number. -/
def remaining (c : Cursor) : Except Stop Nat :=
  if c.pos ≤ c.bytes.length then .ok (c.bytes.length - c.pos) else .error .outOfRange

/-- Take `n` bytes. -/
def take (n : Nat) (c : Cursor) : Except Stop (Bytes × Cursor) := do
  let left ← c.remaining
  if left < n then throw (.refused (.bytesMissing n left))
  let front ← slice c.bytes c.pos (c.pos + n)
  pure (front, { c with pos := c.pos + n })

/-- Take a word. It needs exactly the bytes that were taken for it. -/
def takeWord (c : Cursor) : Except Stop (UInt32 × Cursor) := do
  let (front, c) ← c.take 4
  match Bytes.word32? front with
  | some (w, []) => pure (w, c)
  | _ => throw .outOfRange

/-- Take a long word. It needs exactly the bytes that were taken for it. -/
def takeLong (c : Cursor) : Except Stop (UInt64 × Cursor) := do
  let (front, c) ← c.take 8
  match Bytes.word64? front with
  | some (w, []) => pure (w, c)
  | _ => throw .outOfRange

/-- Take a count, which is not negative. -/
def takeCount (what : String) (c : Cursor) : Except Stop (Nat × Cursor) := do
  let (w, c) ← c.takeWord
  if w.toNat < 0x80000000 then pure (w.toNat, c)
  else throw (.refused (.negativeCount what ((w.toNat : Int) - 0x100000000)))

/-- Take a value of a type. -/
def takeValue (t : DataType) (c : Cursor) : Except Stop (Value × Cursor) :=
  match t with
  | .boolean => do
    let (front, c) ← c.take 1
    let b ← byteAt front 0
    pure (.boolean (b != 0), c)
  | .int32 => do let (w, c) ← c.takeWord; pure (.int32 w.toInt32, c)
  | .int64 => do let (w, c) ← c.takeLong; pure (.int64 w.toInt64, c)
  | .float32 => do let (w, c) ← c.takeWord; pure (.float32 w, c)
  | .float64 => do let (w, c) ← c.takeLong; pure (.float64 w, c)
  | .utf8 => do
    let (n, c) ← c.takeCount "string length"
    let (text, c) ← c.take n
    match Utf8.decode text with
    | .ok s => pure (.utf8 s, c)
    | .error fault => throw (.refused (.invalidText fault))
  | .date => do let (w, c) ← c.takeLong; pure (.date w.toInt64, c)
  | .timestamp => do let (w, c) ← c.takeLong; pure (.timestamp w.toInt64, c)

end Cursor

/-- The values of the next rows, of which the first has the number `i`, and how many of them are
present. The flag of row `i` is bit `i % 8` of byte `i / 8`. -/
def takeRows (field : Field) (packed : Bytes) :
    Nat → Nat → Cursor → Except Stop ((List Value × Nat) × Cursor)
  | 0, _, c => .ok (([], 0), c)
  | rows + 1, i, c => do
    let flags ← byteAt packed (i / 8)
    if flags.toNat.testBit (i % 8) then
      let (v, c) ← c.takeValue field.dataType
      let ((vs, present), c) ← takeRows field packed rows (i + 1) c
      pure ((v :: vs, present + 1), c)
    else if field.nullable then
      let ((vs, present), c) ← takeRows field packed rows (i + 1) c
      pure ((.null :: vs, present), c)
    else throw (.refused (.absentValue field.name))

/-- The column of a bitmap and values. -/
def decode (field : Field) (rows : Nat) (bitmap values : Bytes) : Except Stop (List Value) := do
  let (flags, bits) ← Cursor.takeCount "bitmap length" { bytes := bitmap }
  if flags ≠ rows then throw (.refused (.flagCount field.name flags rows))
  let (packed, _) ← bits.take (bitmapSize rows)
  let (declared, data) ← Cursor.takeCount "value count" { bytes := values }
  let ((column, present), data) ← takeRows field packed rows 0 data
  let left ← data.remaining
  if present ≠ declared ∨ left ≠ 0 then throw (.refused (.valueCount field.name declared present))
  pure column

/-- The row count that starts a batch. -/
def rowCount (message : Bytes) : Except Stop Nat := do
  let (count, c) ← Cursor.takeCount "row count" { bytes := message }
  let left ← c.remaining
  if left ≠ 0 then throw (.refused (.trailingBytes left))
  pure count

/-! ### Positions and what follows them -/

/-- The position is not behind the last byte, and this is what follows it. -/
def Cursor.At (c : Cursor) (rest : Bytes) : Prop :=
  c.pos ≤ c.bytes.length ∧ c.bytes.drop c.pos = rest

theorem Cursor.at_start (bytes : Bytes) : Cursor.At { bytes } bytes := ⟨Nat.zero_le _, rfl⟩

/-- Reading by position and reading from the front give the same and are at the same place, or
they are refused for the same reason. -/
inductive Agrees {α : Type} : Except Stop (α × Cursor) → Except DecodeError (α × Bytes) → Prop
  | ok {a : α} {c : Cursor} {rest : Bytes} (h : c.At rest) : Agrees (.ok (a, c)) (.ok (a, rest))
  | refused (e : DecodeError) : Agrees (.error (.refused e)) (.error e)

theorem Agrees.bind {α β : Type} {x : Except Stop (α × Cursor)} {y : Except DecodeError (α × Bytes)}
    {f : α × Cursor → Except Stop (β × Cursor)} {g : α × Bytes → Except DecodeError (β × Bytes)}
    (h : Agrees x y) (hf : ∀ a c rest, c.At rest → Agrees (f (a, c)) (g (a, rest))) :
    Agrees (x >>= f) (y >>= g) := by
  cases h with
  | ok hc => exact hf _ _ _ hc
  | refused e => exact .refused e

/-- What comes of both in the end: the same, but for the place. -/
theorem Agrees.bind_eq {α β : Type} {x : Except Stop (α × Cursor)}
    {y : Except DecodeError (α × Bytes)} {f : α × Cursor → Except Stop β}
    {g : α × Bytes → Except DecodeError β} (h : Agrees x y)
    (hf : ∀ a c rest, c.At rest → f (a, c) = (g (a, rest)).mapError .refused) :
    (x >>= f) = (y >>= g).mapError .refused := by
  cases h with
  | ok hc => exact hf _ _ _ hc
  | refused e => rfl

variable {c : Cursor} {rest : Bytes}

theorem remaining_eq (h : c.At rest) : c.remaining = .ok rest.length := by
  obtain ⟨hle, rfl⟩ := h
  rw [Cursor.remaining, if_pos hle, List.length_drop]

/-- Bytes that are there are taken, and the position moves behind them. -/
theorem take_cases (h : c.At rest) (n : Nat) :
    (∃ front back c', rest = front ++ back ∧ front.length = n ∧
        c.take n = .ok (front, c') ∧ c'.At back) ∨
      rest.length < n ∧ c.take n = .error (.refused (.bytesMissing n rest.length)) := by
  rw [Cursor.take, remaining_eq h, Result.ok_bind]
  by_cases hn : rest.length < n
  · right
    rw [if_pos hn]
    exact ⟨hn, rfl⟩
  · left
    obtain ⟨hle, rfl⟩ := h
    rw [List.length_drop, Nat.not_lt] at hn
    have hslice : slice c.bytes c.pos (c.pos + n) = .ok ((c.bytes.drop c.pos).take n) := by
      rw [slice, if_pos ⟨Nat.le_add_right _ _, by omega⟩, Nat.add_sub_cancel_left]
    have hat : Cursor.At { c with pos := c.pos + n } ((c.bytes.drop c.pos).drop n) :=
      ⟨show c.pos + n ≤ c.bytes.length by omega, List.drop_drop.symm⟩
    rw [List.length_drop, if_neg (Nat.not_lt.mpr hn), hslice]
    refine ⟨_, _, _, (List.take_append_drop n _).symm, ?_, rfl, hat⟩
    rw [List.length_take, List.length_drop]
    omega

theorem take_agrees (h : c.At rest) (n : Nat) : Agrees (c.take n) (Column.take n rest) := by
  obtain ⟨front, back, c', rfl, rfl, htake, hc⟩ | ⟨hn, htake⟩ := take_cases h n
  · rw [htake, Column.take, Bytes.split?_append]
    exact .ok hc
  · rw [htake, Column.take, Bytes.split?_eq_none hn]
    exact .refused _

/-! ### Numbers and values -/

/-- Four bytes that were taken are a word, and nothing more. -/
theorem takeWord_agrees (h : c.At rest) : Agrees c.takeWord (Column.takeWord rest) := by
  obtain ⟨front, back, c', rfl, hlength, htake, hc⟩ | ⟨hn, htake⟩ := take_cases h 4
  · match front, hlength with
    | [a, b, d, e], _ =>
      rw [Cursor.takeWord, htake]
      exact .ok hc
  · rw [Cursor.takeWord, htake]
    match rest, hn with
    | [], _ | [_], _ | [_, _], _ | [_, _, _], _ => exact .refused _

/-- Eight bytes that were taken are a long word, and nothing more. -/
theorem takeLong_agrees (h : c.At rest) : Agrees c.takeLong (Column.takeLong rest) := by
  obtain ⟨front, back, c', rfl, hlength, htake, hc⟩ | ⟨hn, htake⟩ := take_cases h 8
  · match front, hlength with
    | [_, _, _, _, _, _, _, _], _ =>
      rw [Cursor.takeLong, htake]
      exact .ok hc
  · rw [Cursor.takeLong, htake]
    match rest, hn with
    | [], _ | [_], _ | [_, _], _ | [_, _, _], _ | [_, _, _, _], _ | [_, _, _, _, _], _
    | [_, _, _, _, _, _], _ | [_, _, _, _, _, _, _], _ => exact .refused _

theorem takeCount_agrees (h : c.At rest) (what : String) :
    Agrees (c.takeCount what) (Column.takeCount what rest) := by
  refine (takeWord_agrees h).bind fun w c rest hc => ?_
  dsimp only
  split
  · exact .ok hc
  · exact .refused _

theorem takeValue_agrees (h : c.At rest) (t : DataType) :
    Agrees (c.takeValue t) (Column.takeValue t rest) := by
  cases t with
  | boolean =>
    obtain ⟨front, back, c', rfl, hlength, htake, hc⟩ | ⟨hn, htake⟩ := take_cases h 1
    · match front, hlength with
      | [b], _ =>
        rw [Cursor.takeValue, htake]
        exact .ok hc
    · rw [Cursor.takeValue, htake, List.length_eq_zero_iff.mp (Nat.lt_one_iff.mp hn)]
      exact .refused _
  | utf8 =>
    refine (takeCount_agrees h "string length").bind fun n c rest hc => ?_
    refine (take_agrees hc n).bind fun text c rest hc => ?_
    dsimp only
    cases Utf8.decode text with
    | ok s => exact .ok hc
    | error fault => exact .refused _
  | int32 | float32 => exact (takeWord_agrees h).bind fun w c rest hc => .ok hc
  | int64 | float64 | date | timestamp =>
    exact (takeLong_agrees h).bind fun w c rest hc => .ok hc

/-! ### Flags -/

/-- The flag of row `i` is bit `i % 8` of byte `i / 8`. -/
theorem getElem?_unpackBits (bytes : Bytes) (i : Nat) :
    (unpackBits bytes)[i]? = bytes[i / 8]?.map fun b => b.toNat.testBit (i % 8) := by
  induction bytes generalizing i with
  | nil => rfl
  | cons b bytes ih =>
    have hlength := length_unpackByte b
    rw [unpackBits, List.flatMap_cons, ← unpackBits]
    by_cases hi : i < 8
    · rw [List.getElem?_append_left (by omega), Nat.div_eq_of_lt hi, Nat.mod_eq_of_lt hi]
      simp [unpackByte, hi]
    · obtain ⟨j, rfl⟩ := Nat.exists_eq_add_of_le' (Nat.not_lt.mp hi)
      rw [List.getElem?_append_right (by omega), hlength, Nat.add_sub_cancel, ih,
        Nat.add_div_right j (by decide), Nat.add_mod_right, List.getElem?_cons_succ]

/-- The flags of the next rows. -/
def flagsFrom (packed : Bytes) (i rows : Nat) : List Bool :=
  ((unpackBits packed).drop i).take rows

/-- The byte of a flag is there, and the flag is the first one. -/
theorem flagsFrom_succ {packed : Bytes} {i rows : Nat} (h : i + (rows + 1) ≤ 8 * packed.length) :
    ∃ b, byteAt packed (i / 8) = .ok b ∧
      flagsFrom packed i (rows + 1) = b.toNat.testBit (i % 8) :: flagsFrom packed (i + 1) rows := by
  have hbyte : i / 8 < packed.length := by omega
  have hflag : i < (unpackBits packed).length := by
    rw [length_unpackBits]
    omega
  have hbit := getElem?_unpackBits packed i
  rw [List.getElem?_eq_getElem hbyte, List.getElem?_eq_getElem hflag, Option.map_some,
    Option.some.injEq] at hbit
  refine ⟨packed[i / 8], ?_, ?_⟩
  · rw [byteAt, List.getElem?_eq_getElem hbyte]
  · rw [flagsFrom, List.drop_eq_getElem_cons hflag, List.take_succ_cons, hbit, flagsFrom]

/-! ### Columns -/

/-- A value in front of others, the flag of which counts for `k`. -/
theorem Agrees.cons {x : Except Stop ((List Value × Nat) × Cursor)}
    {y : Except DecodeError (List Value × Bytes)} {n : Nat}
    (h : Agrees x (y.map fun (vs, rest) => ((vs, n), rest))) (v : Value) (k : Nat) :
    Agrees (do let ((vs, present), c) ← x; pure ((v :: vs, present + k), c))
      ((do let (vs, rest) ← y; pure (v :: vs, rest)).map
        fun (vs, rest) => ((vs, n + k), rest)) := by
  cases y with
  | error e =>
    cases h
    exact .refused e
  | ok found =>
    cases h with
    | ok hc => exact .ok hc

/-- The values of rows whose flags are all there. -/
theorem takeRows_agrees (field : Field) {packed : Bytes} {rows i : Nat} (h : c.At rest)
    (hi : i + rows ≤ 8 * packed.length) :
    Agrees (takeRows field packed rows i c)
      ((takeValues field (flagsFrom packed i rows) rest).map fun (vs, rest) =>
        ((vs, (flagsFrom packed i rows).count true), rest)) := by
  induction rows generalizing i c rest with
  | zero => exact .ok h
  | succ rows ih =>
    obtain ⟨b, hbyte, hflags⟩ := flagsFrom_succ hi
    have hnext {c : Cursor} {rest : Bytes} (h : c.At rest) := ih (i := i + 1) h (by omega)
    rw [takeRows, hbyte, Result.ok_bind, hflags]
    cases b.toNat.testBit (i % 8) with
    | true =>
      rw [if_pos rfl, takeValues, List.count_cons_self]
      have hvalue := takeValue_agrees h field.dataType
      generalize c.takeValue field.dataType = x at hvalue ⊢
      generalize Column.takeValue field.dataType rest = y at hvalue ⊢
      cases hvalue with
      | refused e => exact .refused e
      | ok hc => exact (hnext hc).cons _ 1
    | false =>
      rw [if_neg Bool.false_ne_true, takeValues, List.count_cons_of_ne Bool.false_ne_true]
      cases field.nullable with
      | false => exact .refused _
      | true => exact (hnext h).cons .null 0

/-- There is nothing that reading a column by position does not find: it stops only where reading
from the front is refused. -/
theorem decode_eq (field : Field) (rows : Nat) (bitmap values : Bytes) :
    decode field rows bitmap values =
      (Column.decode field rows bitmap values).mapError .refused := by
  refine (takeCount_agrees (Cursor.at_start bitmap) "bitmap length").bind_eq
    fun flags bits rest h => ?_
  dsimp only
  by_cases hflags : flags ≠ rows
  · rw [if_pos hflags, if_pos hflags]
    rfl
  rw [if_neg hflags, if_neg hflags]
  obtain ⟨packed, back, c, rfl, hlength, htake, -⟩ | ⟨hn, htake⟩ := take_cases h (bitmapSize rows)
  · rw [htake, ← hlength, Column.take, Bytes.split?_append, Result.ok_bind, Result.ok_bind]
    refine (takeCount_agrees (Cursor.at_start values) "value count").bind_eq
      fun declared data rest h => ?_
    have hflags : 0 + rows ≤ 8 * packed.length := by
      rw [hlength, bitmapSize]
      omega
    have hrows := takeRows_agrees field h hflags
    have hall : flagsFrom packed 0 rows = (unpackBits packed).take rows := rfl
    rw [hall] at hrows
    dsimp only
    generalize takeRows field packed rows 0 data = x at hrows ⊢
    generalize takeValues field ((unpackBits packed).take rows) rest = y at hrows ⊢
    cases y with
    | error e =>
      cases hrows
      rfl
    | ok found =>
      cases hrows with
      | ok hc =>
        rw [Result.ok_bind, Result.ok_bind]
        dsimp only
        rw [remaining_eq hc, Result.ok_bind]
        simp only [ne_eq, List.length_eq_zero_iff]
        split
        · rfl
        · rfl
  · have hagrees := take_agrees h (bitmapSize rows)
    rw [htake] at hagrees ⊢
    generalize Column.take (bitmapSize rows) rest = y at hagrees ⊢
    cases hagrees
    rfl

/-- The same for the row count of a batch. -/
theorem rowCount_eq (message : Bytes) :
    rowCount message = (RowReader.rowCount message).mapError .refused := by
  refine (takeCount_agrees (Cursor.at_start message) "row count").bind_eq fun count c rest h => ?_
  dsimp only
  rw [remaining_eq h, Result.ok_bind]
  simp only [ne_eq, List.length_eq_zero_iff]
  split
  · rfl
  · rfl

end StagedQuery.Column.Positional
