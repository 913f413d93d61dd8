import StagedQuery.Proofs.Wire.Frame

/-!
# Frames of which a part may be missing

A connection may break, so a reader gets at most the bytes that were written: a prefix of them.
`FrameReader.Faces` says so. When such a reader gets a frame at all, then it is the first one that
was written (`FrameReader.readFrame_first`); it gets the end only from the marker
(`FrameReader.readFrame_end`), and from nothing it gets nothing (`FrameReader.readFrame_nothing`).
So frames without a marker never look like a stream that has ended.
-/

namespace StagedQuery

namespace FrameReader

/-- The reader is not at the end, and gets at most these bytes. -/
structure Faces (r : FrameReader) (bytes : Bytes) : Prop where
  unfinished : r.finished = false
  rest_prefix : r.rest <+: bytes

variable {r r' : FrameReader} {rest : Bytes}

theorem Faces.facing {bytes rest' : Bytes} (h : r.Faces bytes) (hrest : rest' <+: rest) :
    (r.facing rest').Faces rest :=
  ⟨h.unfinished, hrest⟩

/-- Bytes that could be taken were the next ones. -/
theorem take_eq_ok {n : Nat} {cut : CutPoint} {front : Bytes}
    (h : take n cut r = (.ok front, r')) :
    front.length = n ∧ ∃ rest, r.rest = front ++ rest ∧ r' = r.facing rest := by
  rw [take] at h
  split at h
  case h_1 bytes rest hsplit =>
    obtain ⟨hlength, hrest⟩ := Bytes.split?_eq_some hsplit
    cases h
    exact ⟨hlength, rest, hrest, rfl⟩
  case h_2 =>
    split at h <;> cases h

/-- Bytes that were taken from before some other bytes are these, if they are as long. -/
theorem take_first {front front' : Bytes} {cut : CutPoint} (hr : r.rest <+: front ++ rest)
    (h : take front.length cut r = (.ok front', r')) :
    front' = front ∧ ∃ rest', rest' <+: rest ∧ r' = r.facing rest' := by
  obtain ⟨hlength, rest', hrest, rfl⟩ := take_eq_ok h
  obtain ⟨missing, hmissing⟩ := hr
  rw [hrest, List.append_assoc] at hmissing
  obtain ⟨hfront, htail⟩ := List.append_inj hmissing hlength
  exact ⟨hfront, rest', ⟨missing, htail⟩, rfl⟩

theorem unpack_compress_eq_ok {limit : Nat} {m m' : Bytes} (hm : m.length ≤ Block.maxLength)
    (h : unpack limit (Block.compress m) = .ok m') : m' = m := by
  simp only [unpack, Block.contentLength?_compress hm, Block.decompress_compress hm] at h
  split at h
  · cases h
  · cases h
    rfl

/-- A frame that is read is the first one that was written. -/
theorem readFrame_first {m : Bytes} {f : Frame} (hm : frameOf m = .ok (frameBytes m))
    (hr : r.Faces (frameBytes m ++ rest)) (h : readFrame r = (.ok f, r')) :
    f = .message m ∧ ∃ rest', rest' <+: rest ∧ r' = r.facing rest' := by
  rw [readFrame, Action.bind_ok (Action.get_apply r), hr.unfinished, if_neg Bool.false_ne_true] at h
  obtain ⟨header, s, htake, h⟩ := Action.bind_eq_ok.mp h
  by_cases hempty : m = []
  · subst hempty
    obtain ⟨rfl, rest', hrest, rfl⟩ := take_first hr.rest_prefix htake
    cases h
    exact ⟨rfl, rest', hrest, rfl⟩
  · obtain ⟨hlong, hlt, hframe⟩ := frameOf_eq_ok hempty hm
    have hprefix := hr.rest_prefix
    rw [hframe, List.append_assoc] at hprefix
    obtain ⟨rfl, middle, hmiddle, rfl⟩ := take_first hprefix htake
    have hpos := length_compress_pos m
    rw [headerLength_le32 hlt, if_neg (by omega), if_neg (by omega), if_neg (by omega)] at h
    split at h
    · cases h
    · rw [Int.toNat_natCast] at h
      obtain ⟨block, t, hblock, hunpacked⟩ := Action.bind_eq_ok.mp h
      obtain ⟨rfl, rest', hrest, rfl⟩ := take_first (r := r.facing middle) hmiddle hblock
      obtain ⟨m', u, hunpack, hreturn⟩ := Action.bind_eq_ok.mp hunpacked
      obtain ⟨hmessage, rfl⟩ := Action.ofExcept_eq_ok.mp hunpack
      obtain rfl := unpack_compress_eq_ok hlong hmessage
      cases hreturn
      exact ⟨rfl, rest', hrest, rfl⟩

/-- The end that is read from the marker. -/
theorem readFrame_end {f : Frame} (hr : r.Faces (endMarker ++ rest))
    (h : readFrame r = (.ok f, r')) :
    f = .done ∧ ∃ rest', rest' <+: rest ∧ r' = { r.facing rest' with finished := true } := by
  rw [readFrame, Action.bind_ok (Action.get_apply r), hr.unfinished, if_neg Bool.false_ne_true] at h
  obtain ⟨header, s, htake, h⟩ := Action.bind_eq_ok.mp h
  obtain ⟨rfl, rest', hrest, rfl⟩ := take_first hr.rest_prefix htake
  cases h
  exact ⟨rfl, rest', hrest, rfl⟩

/-- Only the marker announces what the marker announces. -/
theorem headerLength_marker {header : Bytes} (hlength : header.length = 4)
    (h : headerLength header = -0x80000000) : header = endMarker := by
  match header, hlength with
  | [a, b, c, d], _ =>
    have hword : (Bytes.word32 a b c d).toInt32.toBitVec.toInt = -0x80000000 := h
    have hvalue : (Bytes.word32 a b c d).toNat = 0x80000000 := by
      rw [BitVec.toInt_eq_toNat_cond] at hword
      have hnat : (Bytes.word32 a b c d).toInt32.toBitVec.toNat =
        (Bytes.word32 a b c d).toNat := rfl
      split at hword <;> omega
    have ha := a.toNat_lt
    have hb := b.toNat_lt
    have hc := c.toNat_lt
    have hd := d.toNat_lt
    rw [Bytes.word32, UInt32.toNat_ofNat', Nat.mod_eq_of_lt (by omega)] at hvalue
    have hbytes : a = 0 ∧ b = 0 ∧ c = 0 ∧ d = 0x80 := by
      simp only [← UInt8.toNat_inj]
      refine ⟨?_, ?_, ?_, ?_⟩ <;> simp <;> omega
    obtain ⟨rfl, rfl, rfl, rfl⟩ := hbytes
    rfl

/-- A frame that is read is a message, and is taken from what is left, or it is the end: because
the marker comes next, or because it came before. -/
theorem readFrame_cases {f : Frame} (h : readFrame r = (.ok f, r')) :
    (∃ m front rest, f = .message m ∧ r.finished = false ∧ r.rest = front ++ rest ∧
        r' = r.facing rest) ∨
      (∃ rest, f = .done ∧ r.rest = endMarker ++ rest ∧
        r' = { r.facing rest with finished := true }) ∨
      (f = .done ∧ r.finished = true ∧ r' = r) := by
  rw [readFrame, Action.bind_ok (Action.get_apply r)] at h
  cases hf : r.finished with
  | true =>
    rw [hf, if_pos rfl] at h
    cases h
    exact .inr (.inr ⟨rfl, rfl, rfl⟩)
  | false =>
    rw [hf, if_neg Bool.false_ne_true] at h
    obtain ⟨header, s, htake, h⟩ := Action.bind_eq_ok.mp h
    obtain ⟨hlength, rest, hrest, rfl⟩ := take_eq_ok htake
    by_cases hmarker : headerLength header = -0x80000000
    · obtain rfl := headerLength_marker hlength hmarker
      cases h
      exact .inr (.inl ⟨rest, rfl, hrest, rfl⟩)
    rw [if_neg hmarker] at h
    split at h
    · cases h
    split at h
    · cases h
      exact .inl ⟨[], header, rest, rfl, rfl, hrest, rfl⟩
    split at h
    · cases h
    · obtain ⟨block, t, hblock, h⟩ := Action.bind_eq_ok.mp h
      obtain ⟨-, rest', hrest', rfl⟩ := take_eq_ok hblock
      obtain ⟨m, u, hm, h⟩ := Action.bind_eq_ok.mp h
      obtain ⟨-, rfl⟩ := Action.ofExcept_eq_ok.mp hm
      cases h
      refine .inl ⟨m, header ++ block, rest', rfl, rfl, ?_, rfl⟩
      rw [hrest, List.append_assoc]
      exact congrArg (header ++ ·) hrest'

/-- Nothing is read from nothing. -/
theorem readFrame_nothing {f : Frame} (hr : r.Faces []) : readFrame r ≠ (.ok f, r') := by
  intro h
  rw [readFrame, Action.bind_ok (Action.get_apply r), hr.unfinished, if_neg Bool.false_ne_true] at h
  obtain ⟨header, s, htake, -⟩ := Action.bind_eq_ok.mp h
  obtain ⟨hlength, rest', hrest, -⟩ := take_eq_ok htake
  rw [List.prefix_nil.mp hr.rest_prefix] at hrest
  rw [(List.append_eq_nil_iff.mp hrest.symm).1] at hlength
  cases hlength

/-! ### Messages -/

theorem readMessage_first {m : Bytes} {result : Option Bytes}
    (hm : frameOf m = .ok (frameBytes m)) (hr : r.Faces (frameBytes m ++ rest))
    (h : readMessage r = (.ok result, r')) :
    result = some m ∧ ∃ rest', rest' <+: rest ∧ r' = r.facing rest' := by
  obtain ⟨f, s, hframe, h⟩ := Action.bind_eq_ok.mp h
  obtain ⟨rfl, rest', hrest, rfl⟩ := readFrame_first hm hr hframe
  cases h
  exact ⟨rfl, rest', hrest, rfl⟩

theorem readMessage_end {result : Option Bytes} (hr : r.Faces (endMarker ++ rest))
    (h : readMessage r = (.ok result, r')) :
    result = none ∧ ∃ rest', rest' <+: rest ∧ r' = { r.facing rest' with finished := true } := by
  obtain ⟨f, s, hframe, h⟩ := Action.bind_eq_ok.mp h
  obtain ⟨rfl, rest', hrest, rfl⟩ := readFrame_end hr hframe
  cases h
  exact ⟨rfl, rest', hrest, rfl⟩

theorem readMessage_nothing {result : Option Bytes} (hr : r.Faces []) :
    readMessage r ≠ (.ok result, r') := by
  intro h
  obtain ⟨f, s, hframe, -⟩ := Action.bind_eq_ok.mp h
  exact readFrame_nothing hr hframe

end FrameReader

end StagedQuery
