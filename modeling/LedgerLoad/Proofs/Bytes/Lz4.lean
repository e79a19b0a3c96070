import LedgerLoad.Bytes.Lz4
import Mathlib.Tactic.SplitIfs

/-! # Packed octets: unpacking what was packed

A block is *sound* if its copies can be written: each has four octets or more and begins within
reach. `read_write`: a sound block is read back from its octets. `findCopies_spec`: the copies that
the search takes are sound, and behind the octets it has left it puts out the rest of the text,
since a copy is taken only of octets that were compared. `unpack_pack`: so the text comes back.
`Block.Sound.length_write_le`: a block is little longer than what it puts out. -/

namespace LedgerLoad.Lz4

/-! ### Lengths -/

theorem readLength_replicate (q : Nat) {r : Nat} (hr : r < 255) (rest : Bytes) :
    readLength (List.replicate q 255 ++ UInt8.ofNat r :: rest) = some (255 * q + r, rest) := by
  have hn : (UInt8.ofNat r).toNat = r := by simp; omega
  induction q with
  | zero =>
    have hne : ¬ UInt8.ofNat r = 255 := fun h => by
      have := congrArg UInt8.toNat h
      rw [hn] at this
      simp at this
      omega
    rw [List.replicate_zero, List.nil_append, readLength, if_neg hne, hn]
    simp
  | succ q ih =>
    rw [List.replicate_succ, List.cons_append, readLength, if_pos rfl, ih]
    simp only [Option.map_some, Option.some.injEq, Prod.mk.injEq, and_true]
    omega

theorem lengthFrom_lengthTail (n : Nat) (rest : Bytes) :
    lengthFrom (min n 15) (lengthTail n ++ rest) = some (n, rest) := by
  unfold lengthFrom lengthTail
  by_cases h : n < 15
  · rw [if_neg (by omega), if_pos h, Nat.min_eq_left (by omega)]
    rfl
  · rw [if_pos (by omega), if_neg h, List.append_assoc, List.singleton_append,
      readLength_replicate _ (Nat.mod_lt _ (by decide))]
    simp only [Option.map_some, Option.some.injEq, Prod.mk.injEq, and_true]
    omega

theorem token_toNat (literals length : Nat) :
    (token literals length).toNat = 16 * min literals 15 + min length 15 := by
  simp [token]
  omega

theorem token_high (literals length : Nat) :
    (token literals length).toNat / 16 = min literals 15 := by
  rw [token_toNat]
  omega

theorem token_low (literals length : Nat) : (token literals length).toNat % 16 = min length 15 := by
  rw [token_toNat]
  omega

theorem cut_append (literals rest : Bytes) :
    cut literals.length (literals ++ rest) = some (literals, rest) := by
  rw [cut_eq, if_pos (by simp), List.take_left, List.drop_left]

theorem length_lengthTail (n : Nat) : (lengthTail n).length ≤ n / 255 + 1 := by
  unfold lengthTail
  split_ifs
  · simp
  · simp
    omega

theorem length_lengthTail_le (n : Nat) : (lengthTail n).length ≤ n := by
  unfold lengthTail
  split_ifs
  · simp
  · simp
    omega

/-! ### Blocks -/

/-- A copy that can be written. -/
structure Sequence.Sound (s : Sequence) : Prop where
  length : 4 ≤ s.length
  offset : s.offset < 65536

/-- A block whose copies can be written. -/
def Block.Sound (b : Block) : Prop := ∀ s ∈ b.sequences, s.Sound

theorem length_write_pos (s : Sequence) : 0 < s.write.length := by simp [Sequence.write]

theorem readSequences_write (fuel : Nat) (ss : List Sequence) (last : Bytes)
    (hs : ∀ s ∈ ss, s.Sound) (hfuel : (Block.write ⟨ss, last⟩).length ≤ fuel) :
    readSequences fuel (Block.write ⟨ss, last⟩) = some ⟨ss, last⟩ := by
  induction ss generalizing fuel with
  | nil =>
    obtain ⟨fuel, rfl⟩ : ∃ k, fuel = k + 1 := ⟨fuel - 1, by simp [Block.write] at hfuel; omega⟩
    simp only [Block.write, List.flatMap_nil, List.nil_append, readSequences]
    rw [token_high, lengthFrom_lengthTail]
    have := cut_append last []
    rw [List.append_nil] at this
    simp [this]
  | cons s ss ih =>
    obtain ⟨hlen, hoff⟩ := hs s List.mem_cons_self
    have hwrite : Block.write ⟨s :: ss, last⟩ = s.write ++ Block.write ⟨ss, last⟩ := by
      simp [Block.write, List.append_assoc]
    rw [hwrite, List.length_append] at hfuel
    have hpos := length_write_pos s
    obtain ⟨fuel, rfl⟩ : ∃ k, fuel = k + 1 := ⟨fuel - 1, by omega⟩
    have ih := ih fuel (fun t ht => hs t (List.mem_cons_of_mem s ht)) (by omega)
    have hlow : (UInt8.ofNat s.offset).toNat + 256 * (UInt8.ofNat (s.offset / 256)).toNat =
        s.offset := by
      simp
      omega
    have hmatch : s.length - 4 + 4 = s.length := by omega
    rw [hwrite]
    generalize Block.write ⟨ss, last⟩ = rest at ih
    simp only [Sequence.write, List.cons_append, readSequences, List.append_assoc, token_high,
      token_low, lengthFrom_lengthTail, Option.bind_eq_bind, Option.bind_some, cut_append,
      Bytes.leOctets, List.nil_append, ih, hlow, hmatch]
    rfl

/-- **A sound block is read back** from its octets. -/
theorem read_write {b : Block} (h : b.Sound) : Block.read b.write = some b :=
  readSequences_write _ b.sequences b.last h (Nat.le_refl _)

/-! ### What copies put out -/

theorem emit_eq_some {limit : Nat} {out : Array UInt8} {literals : Bytes}
    (h : out.size + literals.length ≤ limit) : emit limit out literals = some (out ++ literals) :=
  if_pos h

/-- Octets that agree are the same octets. -/
theorem getD_of_agreement (input : Array UInt8) (i j most : Nat) :
    agreement input i j most ≤ most ∧ ∀ k < agreement input i j most,
      input.getD (i + k) 0 = input.getD (j + k) 0 := by
  induction most generalizing i j with
  | zero => exact ⟨Nat.le_refl 0, fun k hk => absurd hk (Nat.not_lt_zero k)⟩
  | succ most ih =>
    obtain ⟨hle, hsame⟩ := ih (i + 1) (j + 1)
    unfold agreement
    split_ifs with hfirst
    · refine ⟨Nat.succ_le_succ hle, fun k hk => ?_⟩
      cases k with
      | zero => exact hfirst
      | succ k =>
        have hk' := hsame k (Nat.lt_of_succ_lt_succ hk)
        rwa [Nat.add_right_comm i, Nat.add_right_comm j] at hk'
    · exact ⟨Nat.zero_le _, fun k hk => absurd hk (Nat.not_lt_zero k)⟩

theorem size_copy (out : Array UInt8) (offset length : Nat) :
    (copy out offset length).size = out.size + length := by
  induction length generalizing out with
  | zero => rfl
  | succ length ih =>
    rw [copy, ih, Array.size_push]
    omega

/-- **A copy of octets that agree** puts out more of the same input. -/
theorem copy_extract {input : Array UInt8} {i offset length : Nat} (hoffset : 0 < offset)
    (hreach : offset ≤ i) (hsize : i + length ≤ input.size)
    (hsame : ∀ k < length, input.getD (i + k) 0 = input.getD (i - offset + k) 0) :
    copy (input.extract 0 i) offset length = input.extract 0 (i + length) := by
  induction length generalizing i with
  | zero => rfl
  | succ length ih =>
    have hi : i < input.size := by omega
    have hnext : (input.extract 0 i).getD ((input.extract 0 i).size - offset) 0 = input[i] := by
      have hfirst := hsame 0 (Nat.succ_pos length)
      simp only [Nat.add_zero, Array.getD_eq_getD_getElem?, Array.getElem?_eq_getElem hi,
        Option.getD_some] at hfirst
      rw [Array.size_extract_of_le (Nat.le_of_lt hi), Array.getD_eq_getD_getElem?,
        Array.getElem?_extract_of_lt (by omega), hfirst]
      simp [Array.getElem?_eq_getElem (by omega : i - offset < input.size)]
    rw [copy, hnext, ← Array.extract_succ_right (by omega) hi,
      ih (by omega) (by omega) fun k hk => ?_, Nat.add_right_comm, Nat.add_assoc]
    have hk' := hsame (k + 1) (Nat.succ_lt_succ hk)
    have hplace : i + 1 - offset + k = i - offset + (k + 1) := by omega
    rw [hplace, Nat.add_assoc, Nat.add_comm 1 k]
    exact hk'

/-! ### The block of a text -/

/-- Literals put out more of the input. -/
theorem emit_slice {input : Array UInt8} {start stop : Nat} (hle : start ≤ stop)
    (hstop : stop ≤ input.size) :
    emit input.size (input.extract 0 start) (slice input start stop) =
      some (input.extract 0 stop) := by
  have hlength : (slice input start stop).length = stop - start := by
    rw [slice, Array.length_toList, Array.size_extract_of_le hstop]
  have hsize : (input.extract 0 start).size = start := by
    rw [Array.size_extract_of_le (by omega), Nat.sub_zero]
  have happend : input.extract 0 start ++ input.extract start stop = input.extract 0 stop := by
    rw [Array.extract_append_extract, Nat.min_eq_left (Nat.zero_le _), Nat.max_eq_right hle]
  rw [emit_eq_some (by omega), ← happend]
  refine congrArg some (Array.ext' ?_)
  rw [Array.toList_appendList, Array.toList_append, slice]

/-- Places that were seen lie before the one at hand. -/
def Seen (seen : Std.HashMap Nat Nat) (i : Nat) : Prop :=
  ∀ (key j : Nat), seen[key]? = some j → j < i

theorem seen_empty (i : Nat) : Seen ∅ i := by
  intro key j hj
  simp at hj

theorem Seen.insert {seen : Std.HashMap Nat Nat} {i i' : Nat} (h : Seen seen i) (hlt : i < i')
    (key : Nat) : Seen (seen.insert key i) i' := by
  intro key' j hj
  rw [Std.HashMap.getElem?_insert] at hj
  split_ifs at hj
  · exact Option.some.inj hj ▸ hlt
  · exact Nat.lt_trans (h key' j hj) hlt

/-- The literals up to the end put out the rest of the input. -/
theorem emit_rest {input : Array UInt8} {start : Nat} (hstart : start ≤ input.size) :
    Block.emit input.size (input.extract 0 start) ⟨[], slice input start input.size⟩ =
      some input := by
  have hemit := emit_slice hstart (Nat.le_refl input.size)
  rwa [Array.extract_size] at hemit

/-- **The copies that are found are sound**, and with the literals between them they put out the
rest of the input. -/
theorem findCopies_spec {input : Array UInt8} (fuel : Nat) {seen : Std.HashMap Nat Nat}
    {start i : Nat} (hstart : start ≤ i) (hi : i ≤ input.size) (hseen : Seen seen i) :
    (findCopies input fuel seen start i).Sound ∧
      (findCopies input fuel seen start i).emit input.size (input.extract 0 start) =
        some input := by
  induction fuel generalizing seen start i with
  | zero => exact ⟨nofun, emit_rest (by omega)⟩
  | succ fuel ih =>
    unfold findCopies
    split_ifs with hend
    · exact ⟨nofun, emit_rest (by omega)⟩
    dsimp only
    have hon := ih (Nat.le_succ_of_le hstart) (by omega : i + 1 ≤ input.size)
      (hseen.insert (Nat.lt_succ_self i) (fourAt input i))
    cases hfound : seen[fourAt input i]? with
    | none => exact hon
    | some j =>
      dsimp only
      split_ifs with hcopy
      · have hj : j < i := hseen _ j hfound
        obtain ⟨hmost, hsame⟩ := getD_of_agreement input i j (input.size - 5 - i)
        generalize agreement input i j (input.size - 5 - i) = length at hcopy hmost hsame
        obtain ⟨hsound, hrest⟩ := ih (Nat.le_refl _) (by omega : i + length ≤ input.size)
          (hseen.insert (by omega) (fourAt input i))
        refine ⟨fun s hs => ?_, ?_⟩
        · rcases List.mem_cons.mp hs with rfl | hs
          · exact ⟨hcopy.2, hcopy.1⟩
          · exact hsound s hs
        · have hsize : (input.extract 0 i).size = i := by
            rw [Array.size_extract_of_le hi, Nat.sub_zero]
          have hplace : i - (i - j) = j := by omega
          have hput : copy (input.extract 0 i) (i - j) length = input.extract 0 (i + length) :=
            copy_extract (by omega) (by omega) (by omega) (hplace.symm ▸ hsame)
          rw [Block.emit, List.foldlM_cons, Sequence.expand]
          simp only [Option.bind_eq_bind, emit_slice hstart hi, Option.bind_some, hsize]
          rw [if_pos (by omega), hput]
          exact hrest
      · exact hon

/-- **The block of a text** stands for it and is sound. -/
theorem of_spec (text : Bytes) :
    (Block.of text).Sound ∧ (Block.of text).expand text.length = some text := by
  obtain ⟨hsound, hemit⟩ := findCopies_spec text.length (Nat.le_refl 0)
    (Nat.zero_le text.toArray.size) (seen_empty 0)
  rw [Array.extract_zero, List.size_toArray] at hemit
  exact ⟨hsound, by rw [Block.expand, Block.of, hemit]; rfl⟩

theorem declared_pack {text : Bytes} (h : text.length < 2 ^ 32) :
    declared (pack text) = some text.length := by
  have hval := Bytes.leValue_leOctets 4 text.length
  rw [Nat.mod_eq_of_lt (by omega)] at hval
  simpa [pack, Bytes.leOctets, declared] using hval

/-- **Packed octets come back**, if their number fits into the head. -/
theorem unpack_pack {text : Bytes} (h : text.length < 2 ^ 32) : unpack (pack text) = some text := by
  obtain ⟨hsound, hexpand⟩ := of_spec text
  have hdrop : (pack text).drop 4 = (Block.of text).write := by
    rw [pack, List.drop_left' (by simp)]
  rw [unpack, declared_pack h, Option.bind_eq_bind, Option.bind_some, hdrop, read_write hsound]
  exact hexpand

/-! ### The length of a block -/

theorem size_emit {limit : Nat} {out out' : Array UInt8} {literals : Bytes}
    (h : emit limit out literals = some out') : out'.size = out.size + literals.length := by
  unfold emit at h
  split_ifs at h
  rw [← Option.some.inj h, ← Array.length_toList, Array.toList_appendList, List.length_append,
    Array.length_toList]

theorem size_expand {limit : Nat} {out out' : Array UInt8} {s : Sequence}
    (h : s.expand limit out = some out') :
    out'.size = out.size + s.literals.length + s.length := by
  obtain ⟨mid, hmid, h⟩ := Option.bind_eq_some_iff.mp h
  split_ifs at h
  rw [← Option.some.inj h, size_copy, size_emit hmid]

/-- A sound sequence takes little more than the octets it puts out. -/
theorem Sequence.Sound.length_write_le {s : Sequence} (h : s.Sound) :
    s.write.length ≤ s.literals.length + s.length + s.literals.length / 255 := by
  have hliterals := length_lengthTail s.literals.length
  have hcopy := length_lengthTail_le (s.length - 4)
  have hfour := h.length
  simp only [Sequence.write, List.length_cons, List.length_append, Bytes.length_leOctets]
  omega

/-- A sound block takes little more than the octets it puts out. -/
theorem Block.Sound.length_write_le {limit : Nat} {b : Block} (hb : b.Sound)
    {out out' : Array UInt8} (h : b.emit limit out = some out') :
    ∃ n, out'.size = out.size + n ∧ b.write.length ≤ n + n / 255 + 2 := by
  obtain ⟨ss, last⟩ := b
  induction ss generalizing out with
  | nil =>
    have hsize : out'.size = out.size + last.length := size_emit h
    have htail := length_lengthTail last.length
    refine ⟨last.length, hsize, ?_⟩
    simp only [Block.write, List.flatMap_nil, List.nil_append, List.length_cons,
      List.length_append]
    omega
  | cons s ss ih =>
    obtain ⟨hs, hss⟩ := List.forall_mem_cons.mp hb
    obtain ⟨all, hall, hlast⟩ := Option.bind_eq_some_iff.mp h
    obtain ⟨mid, hmid, hrest⟩ := Option.bind_eq_some_iff.mp hall
    obtain ⟨n, hn, hmore⟩ := ih hss (Option.bind_eq_some_iff.mpr ⟨all, hrest, hlast⟩)
    have hsize := size_expand hmid
    have hwrite := hs.length_write_le
    refine ⟨s.literals.length + s.length + n, by omega, ?_⟩
    simp only [Block.write, List.flatMap_cons, List.length_append] at hmore ⊢
    omega

/-- Packing makes a text little longer. -/
theorem length_pack_le (text : Bytes) :
    (pack text).length ≤ text.length + text.length / 255 + 6 := by
  obtain ⟨hsound, hexpand⟩ := of_spec text
  obtain ⟨out, hemit, hout⟩ := Option.map_eq_some_iff.mp hexpand
  obtain ⟨n, hn, hwrite⟩ := hsound.length_write_le hemit
  have hsize : n = text.length := by
    rw [← hout, Array.length_toList, hn]
    exact (Nat.zero_add n).symm
  rw [pack, List.length_append, Bytes.length_leOctets]
  omega

end LedgerLoad.Lz4
