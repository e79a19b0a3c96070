import LedgerLoad.Proofs.Document
import LedgerLoad.Wire.Request
import Mathlib.Tactic.Tauto

/-! # Streams as frames

Every string of octets is in one way a sequence of frames, each a whole request, and a tail behind
which no further frame can be told (`Stream.exists_frames`, `Stream.unique`). `Incoming.of_frame`
and `Incoming.of_tail` say what a secondary finds at the head of each; it does not matter there
whether a document makes sense, only that its length is admissible. -/

namespace LedgerLoad

/-! ### Documents on a stream -/

namespace Wire

/-- The octets of a length. -/
def lengthOctets (length : Nat) : Bytes := Bytes.leOctets 4 length

theorem lengthOctets_eq (length : Nat) : ∃ a b c d, lengthOctets length = [a, b, c, d] ∧
    Bytes.leValue [a, b, c, d] = length % 2 ^ 32 := by
  refine ⟨_, _, _, _, rfl, ?_⟩
  exact Bytes.leValue_leOctets 4 length

theorem lengthOctets_leValue (a b c d : UInt8) :
    lengthOctets (Bytes.leValue [a, b, c, d]) = [a, b, c, d] :=
  Bytes.leOctets_leValue [a, b, c, d]

theorem leValue_lt (a b c d : UInt8) : Bytes.leValue [a, b, c, d] < 2 ^ 32 := by
  have ha := a.toNat_lt
  have hb := b.toNat_lt
  have hc := c.toNat_lt
  have hd := d.toNat_lt
  simp only [Bytes.leValue]
  omega

/-- The octets of a body behind its length. -/
def bodyOctets (body : Bytes) : Bytes := lengthOctets body.length ++ body

theorem document_eq_ok {d : Document} {frame : Bytes} (h : document d = .ok frame) :
    ∃ body, d.encode = .ok body ∧ frame = bodyOctets body := by
  unfold document at h
  cases hbody : d.encode with
  | error fault => rw [hbody] at h; cases h
  | ok body =>
    rw [hbody] at h
    exact ⟨body, rfl, (Except.ok.inj h).symm⟩

/-- A body of admissible length is taken off the stream, whatever it is. -/
theorem recvDocument_body {body : Bytes} (h : body.length ≤ Document.limit) (rest : Bytes) :
    recvDocument (bodyOctets body ++ rest) =
      ((Document.decode body).mapError WireFault.document, rest) := by
  obtain ⟨a, b, c, d, hoctets, hvalue⟩ := lengthOctets_eq body.length
  have hlimit : Document.limit < 2 ^ 32 := by decide
  rw [Nat.mod_eq_of_lt (by omega)] at hvalue
  rw [bodyOctets, hoctets]
  simp only [List.cons_append, List.nil_append, recvDocument, hvalue]
  rw [if_neg (by omega), if_neg (by simp), List.take_left, List.drop_left]
  cases Document.decode body <;> rfl

/-- **A document that was sent is received**, and what follows is not touched. -/
theorem recvDocument_document {d : Document} {frame : Bytes} (h : document d = .ok frame)
    (rest : Bytes) : recvDocument (frame ++ rest) = (.ok d, rest) := by
  obtain ⟨body, hbody, rfl⟩ := document_eq_ok h
  rw [recvDocument_body (Document.encode_eq_ok hbody).2.2, Document.decode_encode hbody]
  rfl

end Wire

/-! ### Frames and tails -/

namespace Request

/-- The octets of a request, of which the document has the given body. -/
def frame : Request Bytes → Bytes
  | .workload body => Command.workload.octet :: Wire.bodyOctets body
  | r => [r.command.octet]

/-- A request as it arrives. -/
def arrived : Request Bytes → Received
  | .prepare => .prepare
  | .workload body => .workload (Document.decode body)
  | .run => .run
  | .results => .results
  | .fin => .fin

/-- A request that is answered and whose document can be read at all. -/
def Admissible : Request Bytes → Prop
  | .workload body => body.length ≤ Document.limit
  | .fin => False
  | _ => True

end Request

/-- What stands behind the frames of a stream. -/
inductive Tail
  /-- The stream ends between two frames. -/
  | nothing
  /-- The last request, and whatever follows. -/
  | fin (rest : Bytes)
  /-- An octet that is no command. -/
  | unknown (octet : UInt8) (rest : Bytes)
  /-- Work whose length is beyond the limit. -/
  | tooLong (length : Nat) (rest : Bytes)
  /-- Work that breaks off. -/
  | cut (piece : Bytes)
deriving DecidableEq, Repr

namespace Tail

/-- The octets of a tail. -/
def octets : Tail → Bytes
  | .nothing => []
  | .fin rest => Command.fin.octet :: rest
  | .unknown octet rest => octet :: rest
  | .tooLong length rest => Command.workload.octet :: (Wire.lengthOctets length ++ rest)
  | .cut piece => Command.workload.octet :: piece

/-- What makes a tail one: nothing in it is a frame. -/
def Proper : Tail → Prop
  | .nothing => True
  | .fin _ => True
  | .unknown octet _ => Command.ofOctet? octet = none
  | .tooLong length _ => Document.limit < length ∧ length < 2 ^ 32
  | .cut piece => ∃ body missing, body.length ≤ Document.limit ∧ missing ≠ [] ∧
    piece ++ missing = Wire.bodyOctets body

/-- How a session ends on a tail. -/
def ending : Tail → Except WireFault Unit
  | .nothing => .ok ()
  | .fin _ => .ok ()
  | .unknown octet _ => .error (.unknownCommand octet)
  | .tooLong length _ => .error (.document (.tooLarge length))
  | .cut _ => .error .io

end Tail

/-- `Stream input frames tail`: the octets are the given frames and behind them the tail. -/
structure Stream (input : Bytes) (frames : List (Request Bytes)) (tail : Tail) : Prop where
  octets : input = frames.flatMap Request.frame ++ tail.octets
  admissible : ∀ r ∈ frames, r.Admissible
  proper : tail.Proper

namespace Incoming

/-! ### What is found at the head -/

/-- A frame is found whole, with what stands behind it. -/
theorem of_frame {r : Request Bytes} (h : r.Admissible) (rest : Bytes) :
    of (r.frame ++ rest) = .request r.arrived rest := by
  cases r with
  | workload body =>
    show work (Wire.bodyOctets body ++ rest) = _
    rw [work, Wire.recvDocument_body h]
    cases hdecode : Document.decode body with
    | ok d => simp [Request.arrived, Except.mapError, hdecode]
    | error fault =>
      cases fault with
      | tooLarge length => exact absurd hdecode (Document.decode_ne_tooLarge body length)
      | _ => simp [Request.arrived, Except.mapError, hdecode]
  | prepare => rfl
  | run => rfl
  | results => rfl
  | fin => exact h.elim

/-- The last request is found, with whatever stands behind it. -/
theorem of_fin (rest : Bytes) : of (Command.fin.octet :: rest) = .request .fin rest := rfl

theorem of_unknown {octet : UInt8} (h : Command.ofOctet? octet = none) (rest : Bytes) :
    of (octet :: rest) = .broken (.unknownCommand octet) := by
  simp [of, Wire.recvCommand, h]

theorem of_tooLong {length : Nat} (h : Document.limit < length) (hlt : length < 2 ^ 32)
    (rest : Bytes) : of (Command.workload.octet :: (Wire.lengthOctets length ++ rest)) =
      .broken (.document (.tooLarge length)) := by
  obtain ⟨a, b, c, d, hoctets, hvalue⟩ := Wire.lengthOctets_eq length
  rw [Nat.mod_eq_of_lt hlt] at hvalue
  show work (Wire.lengthOctets length ++ rest) = _
  rw [hoctets, work]
  simp only [List.cons_append, List.nil_append, Wire.recvDocument, hvalue, if_pos h]

/-- A body that breaks off cannot be received. -/
theorem recvDocument_cut {piece missing body : Bytes} (h : body.length ≤ Document.limit)
    (hmissing : missing ≠ []) (hpiece : piece ++ missing = Wire.bodyOctets body) :
    Wire.recvDocument piece = (.error .io, []) := by
  obtain ⟨a, b, c, d, hoctets, hvalue⟩ := Wire.lengthOctets_eq body.length
  have hlimit : Document.limit < 2 ^ 32 := by decide
  rw [Nat.mod_eq_of_lt (by omega)] at hvalue
  rw [Wire.bodyOctets, hoctets] at hpiece
  have hpos := List.length_pos_iff.mpr hmissing
  match piece, hpiece with
  | [], _ => rfl
  | [_], _ => rfl
  | [_, _], _ => rfl
  | [_, _, _], _ => rfl
  | a' :: b' :: c' :: d' :: rest, hpiece =>
    simp only [List.cons_append, List.nil_append, List.cons.injEq] at hpiece
    obtain ⟨rfl, rfl, rfl, rfl, hbody⟩ := hpiece
    have hlength := congrArg List.length hbody
    rw [List.length_append] at hlength
    simp only [Wire.recvDocument, hvalue]
    rw [if_neg (by omega), if_pos (by omega)]

theorem of_cut {piece : Bytes} (h : (Tail.cut piece).Proper) :
    of (Command.workload.octet :: piece) = .incomplete := by
  obtain ⟨body, missing, hbody, hmissing, hpiece⟩ := h
  show work piece = _
  rw [work, recvDocument_cut hbody hmissing hpiece]

end Incoming

/-- What a secondary finds in a tail. -/
def Tail.found : Tail → Incoming
  | .nothing => .incomplete
  | .fin rest => .request .fin rest
  | .unknown octet _ => .broken (.unknownCommand octet)
  | .tooLong length _ => .broken (.document (.tooLarge length))
  | .cut _ => .incomplete

theorem Incoming.of_tail {tail : Tail} (h : tail.Proper) : of tail.octets = tail.found := by
  cases tail with
  | nothing => rfl
  | fin rest => exact of_fin rest
  | unknown octet rest => exact of_unknown h rest
  | tooLong length rest => exact of_tooLong h.1 h.2 rest
  | cut piece => exact of_cut h

/-! ### Every string is a stream -/

/-- A piece of a length is a piece of a body: the length may still turn out a small one. -/
theorem Tail.proper_cut (a b c : UInt8) {piece : Bytes} (missing : Bytes)
    (h : piece ++ missing = [a, b, c, 0]) (hmissing : missing ≠ []) : (Tail.cut piece).Proper := by
  have hle : Bytes.leValue [a, b, c, 0] ≤ Document.limit := by
    have ha := a.toNat_lt
    have hb := b.toNat_lt
    have hc := c.toNat_lt
    have hlimit : 2 ^ 24 ≤ Document.limit := by decide
    have hzero : (0 : UInt8).toNat = 0 := rfl
    simp only [Bytes.leValue, hzero]
    omega
  refine ⟨List.replicate (Bytes.leValue [a, b, c, 0]) 0,
    missing ++ List.replicate (Bytes.leValue [a, b, c, 0]) 0, by simpa using hle,
      by simp [hmissing], ?_⟩
  rw [← List.append_assoc, h, Wire.bodyOctets, List.length_replicate, Wire.lengthOctets_leValue]

/-- What work begins with: a whole body, a length beyond the limit, or a part of a body. -/
theorem Wire.body_cases (input : Bytes) :
    (∃ body rest, body.length ≤ Document.limit ∧ input = bodyOctets body ++ rest) ∨
      (∃ length rest, Document.limit < length ∧ length < 2 ^ 32 ∧
        input = lengthOctets length ++ rest) ∨ (Tail.cut input).Proper := by
  match input with
  | [] => exact Or.inr (Or.inr (Tail.proper_cut 0 0 0 [0, 0, 0, 0] rfl (by simp)))
  | [a] => exact Or.inr (Or.inr (Tail.proper_cut a 0 0 [0, 0, 0] rfl (by simp)))
  | [a, b] => exact Or.inr (Or.inr (Tail.proper_cut a b 0 [0, 0] rfl (by simp)))
  | [a, b, c] => exact Or.inr (Or.inr (Tail.proper_cut a b c [0] rfl (by simp)))
  | a :: b :: c :: d :: rest =>
    have hlt := leValue_lt a b c d
    have hoctets := lengthOctets_leValue a b c d
    rcases Nat.lt_or_ge Document.limit (Bytes.leValue [a, b, c, d]) with hlimit | hlimit
    · exact Or.inr (Or.inl ⟨_, rest, hlimit, hlt, by rw [hoctets]; rfl⟩)
    · rcases Nat.lt_or_ge rest.length (Bytes.leValue [a, b, c, d]) with hshort | hlong
      · refine Or.inr (Or.inr ⟨rest ++ List.replicate (Bytes.leValue [a, b, c, d] - rest.length) 0,
          List.replicate (Bytes.leValue [a, b, c, d] - rest.length) 0, ?_, ?_, ?_⟩)
        · simp
          omega
        · simp
          omega
        · have hlength :
              (rest ++ List.replicate (Bytes.leValue [a, b, c, d] - rest.length) 0).length =
              Bytes.leValue [a, b, c, d] := by
            simp
            omega
          rw [bodyOctets, hlength, hoctets]
          rfl
      · refine Or.inl ⟨rest.take (Bytes.leValue [a, b, c, d]),
        rest.drop (Bytes.leValue [a, b, c, d]),
          ?_, ?_⟩
        · simp
          omega
        · rw [bodyOctets, List.length_take, Nat.min_eq_left hlong, hoctets, List.append_assoc,
            List.take_append_drop]
          rfl

/-- What a stream begins with: a frame, or its tail. -/
theorem Stream.head_cases (input : Bytes) :
    (∃ r rest, r.Admissible ∧ input = Request.frame r ++ rest) ∨
      ∃ tail : Tail, tail.Proper ∧ input = tail.octets := by
  match input with
  | [] => exact Or.inr ⟨.nothing, trivial, rfl⟩
  | b :: rest =>
    cases hcommand : Command.ofOctet? b with
    | none => exact Or.inr ⟨.unknown b rest, hcommand, rfl⟩
    | some c =>
      obtain rfl := Command.ofOctet?_eq_some_iff.mp hcommand
      cases c with
      | prepare => exact Or.inl ⟨.prepare, rest, trivial, rfl⟩
      | run => exact Or.inl ⟨.run, rest, trivial, rfl⟩
      | results => exact Or.inl ⟨.results, rest, trivial, rfl⟩
      | fin => exact Or.inr ⟨.fin rest, trivial, rfl⟩
      | workload =>
        rcases Wire.body_cases rest with
            ⟨body, rest, hbody, rfl⟩ | ⟨length, rest, hlimit, hlt, rfl⟩ | hcut
        · exact Or.inl ⟨.workload body, rest, hbody, rfl⟩
        · exact Or.inr ⟨.tooLong length rest, ⟨hlimit, hlt⟩, rfl⟩
        · exact Or.inr ⟨.cut rest, hcut, rfl⟩

theorem Request.frame_ne_nil (r : Request Bytes) : r.frame ≠ [] := by cases r <;> simp [frame]

/-- Every string of octets is frames and a tail. -/
theorem Stream.exists_frames (input : Bytes) : ∃ frames tail, Stream input frames tail := by
  induction h : input.length using Nat.strongRecOn generalizing input with
  | ind n ih =>
    rcases Stream.head_cases input with ⟨r, rest, hr, rfl⟩ | ⟨tail, htail, rfl⟩
    · have hpos := List.length_pos_iff.mpr r.frame_ne_nil
      rw [List.length_append] at h
      obtain ⟨frames, tail, hoctets, hframes, htail⟩ := ih rest.length (by omega) rest rfl
      refine ⟨r :: frames, tail, ?_, ?_, htail⟩
      · rw [hoctets, List.flatMap_cons, List.append_assoc]
      · intro x hx
        rcases List.mem_cons.mp hx with rfl | hx
        · exact hr
        · exact hframes x hx
    · exact ⟨[], tail, rfl, by simp, htail⟩

/-! ### In one way only -/

theorem Wire.lengthOctets_inj {m n : Nat} (hm : m < 2 ^ 32) (hn : n < 2 ^ 32)
    (h : lengthOctets m = lengthOctets n) : m = n := by
  have hvalue := congrArg Bytes.leValue h
  rw [lengthOctets, lengthOctets, Bytes.leValue_leOctets, Bytes.leValue_leOctets,
    Nat.mod_eq_of_lt (by omega), Nat.mod_eq_of_lt (by omega)] at hvalue
  exact hvalue

theorem Wire.lengthOctets_append_inj {m n : Nat} (hm : m < 2 ^ 32) (hn : n < 2 ^ 32)
    {rest rest' : Bytes} (h : lengthOctets m ++ rest = lengthOctets n ++ rest') :
    m = n ∧ rest = rest' := by
  obtain ⟨hlength, hrest⟩ := List.append_inj h (by simp [lengthOctets])
  exact ⟨lengthOctets_inj hm hn hlength, hrest⟩

theorem Wire.bodyOctets_append_inj {body body' rest rest' : Bytes}
    (hbody : body.length ≤ Document.limit) (hbody' : body'.length ≤ Document.limit)
    (h : bodyOctets body ++ rest = bodyOctets body' ++ rest') : body = body' ∧ rest = rest' := by
  have hlimit : Document.limit < 2 ^ 32 := by decide
  rw [bodyOctets, bodyOctets, List.append_assoc, List.append_assoc] at h
  obtain ⟨hlength, h⟩ := lengthOctets_append_inj (by omega) (by omega) h
  exact List.append_inj h hlength

theorem Request.frame_append_inj {r r' : Request Bytes} (hr : r.Admissible) (hr' : r'.Admissible)
    {rest rest' : Bytes} (h : r.frame ++ rest = r'.frame ++ rest') : r = r' ∧ rest = rest' := by
  obtain ⟨harrived, hrest⟩ := Incoming.request.inj
    ((Incoming.of_frame hr rest).symm.trans (h ▸ Incoming.of_frame hr' rest'))
  cases r <;> cases r' <;> first
    | exact ⟨rfl, hrest⟩
    | cases harrived
    | skip
  · obtain ⟨rfl, -⟩ := Wire.bodyOctets_append_inj hr hr' (List.cons.inj h).2
    exact ⟨rfl, hrest⟩

theorem Tail.octets_inj {tail tail' : Tail} (h : tail.Proper) (h' : tail'.Proper)
    (heq : tail.octets = tail'.octets) : tail = tail' := by
  have hfound : tail.found = tail'.found := by
    rw [← Incoming.of_tail h, ← Incoming.of_tail h', heq]
  cases tail <;> cases tail' <;> simp_all [found, octets]

/-- A frame is no tail. -/
theorem Tail.octets_ne_frame {tail : Tail} (h : tail.Proper) {r : Request Bytes} (hr : r.Admissible)
    (rest : Bytes) : tail.octets ≠ r.frame ++ rest := by
  intro heq
  have hfound : tail.found = .request r.arrived rest := by
    rw [← Incoming.of_tail h, heq, Incoming.of_frame hr]
  cases tail <;> cases r <;> simp_all [found, Request.arrived, Request.Admissible]

/-- **Every string of octets is frames and a tail in one way only.** -/
theorem Stream.unique {input : Bytes} {frames frames' : List (Request Bytes)} {tail tail' : Tail}
    (h : Stream input frames tail) (h' : Stream input frames' tail') :
    frames = frames' ∧ tail = tail' := by
  obtain ⟨hoctets, hframes, htail⟩ := h
  obtain ⟨hoctets', hframes', htail'⟩ := h'
  induction frames generalizing input frames' with
  | nil =>
    cases frames' with
    | nil => exact ⟨rfl, Tail.octets_inj htail htail' (hoctets.symm.trans hoctets')⟩
    | cons r frames' =>
      rw [List.flatMap_cons, List.append_assoc] at hoctets'
      exact absurd (hoctets.symm.trans hoctets')
        (Tail.octets_ne_frame htail (hframes' r List.mem_cons_self) _)
  | cons r frames ih =>
    rw [List.flatMap_cons, List.append_assoc] at hoctets
    have hr := hframes r List.mem_cons_self
    cases frames' with
    | nil => exact absurd (hoctets'.symm.trans hoctets) (Tail.octets_ne_frame htail' hr _)
    | cons r' frames' =>
      rw [List.flatMap_cons, List.append_assoc] at hoctets'
      obtain ⟨rfl, hrest⟩ := Request.frame_append_inj hr (hframes' r' List.mem_cons_self)
        (hoctets.symm.trans hoctets')
      obtain ⟨rfl, rfl⟩ := ih rfl (fun x hx => hframes x (List.mem_cons_of_mem _ hx)) hrest
        (fun x hx => hframes' x (List.mem_cons_of_mem _ hx))
      exact ⟨rfl, rfl⟩

end LedgerLoad
