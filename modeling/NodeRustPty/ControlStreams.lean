import NodeRustPty.ControlSequences

/-! What a terminal reads from a stream of bytes: characters, controls, control sequences,
operating system commands, and device control strings from their hook to their unhook. -/
namespace NodeRustPty
namespace ControlSequences

inductive Event
  | print (c : Char)
  | execute (byte : UInt8)
  | csi (s : Sequence)
  | osc (params : List (List UInt8))
  | hook (s : Sequence)
  | put (byte : UInt8)
  | unhook
  deriving DecidableEq

/-- Where a reader is: between sequences, after ESC, in a sequence after its introducer, in an
operating system command, or in a device control string, which may have been refused. -/
inductive Reader
  | ground
  | escape
  | sequence (introducer : UInt8) (bytes : List UInt8)
  | osc (bytes : List UInt8)
  | string (hooked : Bool)
  deriving DecidableEq

namespace Reader

/-- CAN and SUB, which end whatever is being read. -/
def cancels (byte : UInt8) : Bool := byte = 0x18 || byte = 0x1A

/-- At its final byte a sequence is decoded. What cannot be decoded is passed over. -/
def finish (introducer : UInt8) (bytes : List UInt8) : Reader × List Event :=
  match decode introducer (0x1B::introducer::bytes) with
  | some s => if introducer = 0x50 then (.string true,[.hook s]) else (.ground,[.csi s])
  | none => if introducer = 0x50 then (.string false,[]) else (.ground,[])

def step : Reader → UInt8 → Reader × List Event
  | .ground, byte =>
    if byte = 0x1B then (.escape,[])
    else if byte < 0x20 then (.ground,[.execute byte])
    else if byte < 0x7F then (.ground,[.print (Char.ofNat byte.toNat)])
    else (.ground,[])
  | .escape, byte =>
    if byte = 0x1B then (.escape,[])
    else if byte = 0x5B ∨ byte = 0x50 then (.sequence byte [],[])
    else if byte = 0x5D then (.osc [],[])
    else (.ground,[])
  | .sequence introducer bytes, byte =>
    if byte = 0x1B then (.escape,[])
    else if cancels byte then (.ground,[.execute byte])
    else if byte < 0x20 then (.sequence introducer bytes,[.execute byte])
    else if isFinal byte then finish introducer (bytes ++ [byte])
    else (.sequence introducer (bytes ++ [byte]),[])
  | .osc bytes, byte =>
    if byte = 0x07 then (.ground,[.osc (bytes.splitOn 0x3B)])
    else if byte = 0x1B then (.escape,[.osc (bytes.splitOn 0x3B)])
    else if cancels byte then (.ground,[.execute byte])
    else if byte < 0x20 then (.osc bytes,[])
    else (.osc (bytes ++ [byte]),[])
  | .string hooked, byte =>
    if byte = 0x1B then (.escape,if hooked then [.unhook] else [])
    else if cancels byte then (.ground,if hooked then [.unhook,.execute byte] else [.execute byte])
    else if byte < 0x7F ∧ hooked then (.string hooked,[.put byte])
    else (.string hooked,[])

def read (reader : Reader) : List UInt8 → Reader × List Event
  | [] => (reader,[])
  | byte::bytes =>
    let (next,events) := reader.step byte
    let (last,later) := read next bytes
    (last,events ++ later)

theorem read_cons (reader : Reader) (byte : UInt8) (bytes : List UInt8) :
    reader.read (byte::bytes) =
      (((reader.step byte).1.read bytes).1,(reader.step byte).2 ++ ((reader.step byte).1.read bytes).2) := rfl

/-- How the bytes are cut does not matter. -/
theorem read_append (reader : Reader) (first second : List UInt8) :
    reader.read (first ++ second) =
      (((reader.read first).1.read second).1,(reader.read first).2 ++ ((reader.read first).1.read second).2) := by
  induction first generalizing reader with
  | nil => rfl
  | cons byte first ih => rw [List.cons_append,read_cons,ih,read_cons,List.append_assoc]

/-! ### One event -/

/-- The bytes of a sequence between its introducer and its final byte. -/
def isInner (byte : UInt8) : Bool := 0x20 ≤ byte && byte < 0x40

theorem isInner_iff {byte : UInt8} : isInner byte = true ↔ 0x20 ≤ byte.toNat ∧ byte.toNat < 0x40 := by
  simp [isInner,UInt8.le_iff_toNat_le,UInt8.lt_iff_toNat_lt]

theorem cancels_iff {byte : UInt8} : cancels byte = true ↔ byte.toNat = 0x18 ∨ byte.toNat = 0x1A := by
  simp [cancels,← UInt8.toNat_inj]

/-- No byte from the space on ends what is being read. -/
theorem not_control {byte : UInt8} (h : 0x20 ≤ byte.toNat) :
    byte ≠ 0x1B ∧ byte ≠ 0x07 ∧ cancels byte = false ∧ ¬byte < 0x20 := by
  refine ⟨?_,?_,?_,?_⟩
  · rintro rfl
    exact absurd h (by decide)
  · rintro rfl
    exact absurd h (by decide)
  · rw [Bool.eq_false_iff,Ne,cancels_iff]
    omega
  · rw [UInt8.lt_iff_toNat_lt]
    exact Nat.not_lt.mpr h

theorem step_inner {introducer byte : UInt8} {bytes : List UInt8} (h : isInner byte = true) :
    (Reader.sequence introducer bytes).step byte = (.sequence introducer (bytes ++ [byte]),[]) := by
  have hrange := isInner_iff.mp h
  obtain ⟨hescape,-,hcancels,hcontrol⟩ := not_control hrange.1
  have hfinal : isFinal byte = false := by
    rw [Bool.eq_false_iff,Ne,isFinal_iff]
    omega
  simp [step,hescape,hcancels,hfinal,hcontrol]

theorem step_final {introducer byte : UInt8} {bytes : List UInt8} (h : isFinal byte = true) :
    (Reader.sequence introducer bytes).step byte = finish introducer (bytes ++ [byte]) := by
  have hrange := isFinal_iff.mp h
  obtain ⟨hescape,-,hcancels,hcontrol⟩ := @not_control byte (by omega)
  simp [step,hescape,hcancels,h,hcontrol]

theorem read_inner {introducer final : UInt8} {bytes body : List UInt8} (hbody : ∀ byte ∈ body, isInner byte = true)
    (hfinal : isFinal final = true) :
    (Reader.sequence introducer bytes).read (body ++ [final]) = finish introducer (bytes ++ body ++ [final]) := by
  induction body generalizing bytes with
  | nil =>
    rw [List.nil_append,read_cons,step_final hfinal,List.append_nil]
    simp [read]
  | cons byte body ih =>
    rw [List.cons_append,read_cons,step_inner (hbody byte List.mem_cons_self),
      ih fun other hother => hbody other (.tail _ hother)]
    simp

/-- A sequence is read at its final byte. -/
theorem read_sequence {introducer final : UInt8} {body : List UInt8} (hintroducer : introducer = 0x5B ∨ introducer = 0x50)
    (hbody : ∀ byte ∈ body, isInner byte = true) (hfinal : isFinal final = true) :
    Reader.ground.read (0x1B::introducer::(body ++ [final])) = finish introducer (body ++ [final]) := by
  have hescape : Reader.ground.step 0x1B = (.escape,[]) := by decide
  have hopen : Reader.escape.step introducer = (.sequence introducer [],[]) := by
    rcases hintroducer with rfl | rfl <;> decide
  rw [read_cons,hescape,read_cons,hopen,read_inner hbody hfinal]
  simp

/-- No piece between separators has one. -/
theorem not_mem_of_mem_splitOn {separator : UInt8} {bytes piece : List UInt8}
    (h : piece ∈ bytes.splitOn separator) : separator ∉ piece := by
  induction bytes generalizing piece with
  | nil =>
    rw [List.splitOn_nil,List.mem_singleton] at h
    simp [h]
  | cons byte bytes ih =>
    rw [List.splitOn_cons_eq_if_modifyHead] at h
    split at h
    · rcases List.mem_cons.mp h with rfl | h
      · exact List.not_mem_nil
      · exact ih h
    · rename_i hbyte
      obtain ⟨first,pieces,hpieces⟩ := List.exists_cons_of_ne_nil (List.splitOn_ne_nil separator bytes)
      rw [hpieces] at ih
      rw [hpieces,List.modifyHead_cons] at h
      rcases List.mem_cons.mp h with rfl | h
      · rw [List.mem_cons,not_or]
        exact ⟨fun heq => hbyte (by simp [heq]),ih List.mem_cons_self⟩
      · exact ih (List.mem_cons_of_mem _ h)

/-- Pieces are what a list is split into exactly when there is one and none has a separator. -/
theorem splitOn_intercalate_iff {separator : UInt8} {pieces : List (List UInt8)} :
    ([separator].intercalate pieces).splitOn separator = pieces ↔
      pieces ≠ [] ∧ ∀ piece ∈ pieces, separator ∉ piece := by
  constructor
  · intro h
    refine ⟨fun hnil => ?_,fun piece hpiece => ?_⟩
    · rw [hnil] at h
      exact List.splitOn_ne_nil _ _ h
    · rw [← h] at hpiece
      exact not_mem_of_mem_splitOn hpiece
  · rintro ⟨hne,hpieces⟩
    exact List.splitOn_intercalate _ hpieces hne

/-- The text of an operating system command. -/
def isText (byte : UInt8) : Bool := 0x20 ≤ byte

theorem step_text {byte : UInt8} {bytes : List UInt8} (h : isText byte = true) :
    (Reader.osc bytes).step byte = (.osc (bytes ++ [byte]),[]) := by
  have hrange : 0x20 ≤ byte.toNat := by simpa [isText,UInt8.le_iff_toNat_le] using h
  obtain ⟨hescape,hbell,hcancels,hcontrol⟩ := not_control hrange
  simp [step,hbell,hescape,hcancels,hcontrol]

theorem read_text {bytes body : List UInt8} (hbody : ∀ byte ∈ body, isText byte = true) :
    (Reader.osc bytes).read (body ++ [0x07]) = (.ground,[.osc ((bytes ++ body).splitOn 0x3B)]) := by
  induction body generalizing bytes with
  | nil => simp [read,step]
  | cons byte body ih =>
    rw [List.cons_append,read_cons,step_text (hbody byte List.mem_cons_self),
      ih fun other hother => hbody other (.tail _ hother)]
    simp

theorem read_osc {body : List UInt8} (hbody : ∀ byte ∈ body, isText byte = true) :
    Reader.ground.read (0x1B::0x5D::(body ++ [0x07])) = (.ground,[.osc (body.splitOn 0x3B)]) := by
  have hescape : Reader.ground.step 0x1B = (.escape,[]) := by decide
  have hopen : Reader.escape.step 0x5D = (.osc [],[]) := by decide
  rw [read_cons,hescape,read_cons,hopen,read_text hbody]
  simp

theorem read_printed {c : Char} (hc : 0x20 ≤ c.toNat) (hascii : c.toNat < 0x7F) :
    Reader.ground.read [UInt8.ofNat c.toNat] = (.ground,[.print c]) := by
  have hbyte : (UInt8.ofNat c.toNat).toNat = c.toNat := UInt8.toNat_ofNat_of_lt' (by change _ < 256; omega)
  obtain ⟨hescape,-,-,hcontrol⟩ := @not_control (UInt8.ofNat c.toNat) (by rwa [hbyte])
  have hlow : UInt8.ofNat c.toNat < 0x7F := by
    rw [UInt8.lt_iff_toNat_lt,hbyte]
    exact hascii
  simp only [read,step,hescape,hcontrol,hlow,if_true,if_false,hbyte,Char.ofNat_toNat]
  rfl

/-- What is read as one character was a printable one of ASCII. -/
theorem ascii_of_read {c : Char} (h : (Reader.ground.read [UInt8.ofNat c.toNat]).2 = [.print c]) :
    c.toNat < 0x7F := by
  simp only [read,step,List.append_nil] at h
  split at h
  · simp at h
  · split at h
    · simp at h
    · split at h
      · rename_i hlow
        have hlow : (UInt8.ofNat c.toNat).toNat < 0x7F := UInt8.lt_iff_toNat_lt.mp hlow
        have hc : Char.ofNat (UInt8.ofNat c.toNat).toNat = c := by simpa using h
        rw [← hc,Char.toNat_ofNat,if_pos (.inl (by omega))]
        exact hlow
      · simp at h

theorem read_execute {byte : UInt8} (hcontrol : byte < 0x20) (hescape : byte ≠ 0x1B) :
    Reader.ground.read [byte] = (.ground,[.execute byte]) := by
  simp [read,step,hcontrol,hescape]

theorem read_put {byte : UInt8} (hascii : byte < 0x7F) (hescape : byte ≠ 0x1B) (hcancels : cancels byte = false) :
    (Reader.string true).read [byte] = (.string true,[.put byte]) := by
  simp [read,step,hascii,hescape,hcancels]

theorem read_unhook : (Reader.string true).read [0x1B,0x5C] = (.ground,[.unhook]) := by decide

/-! ### Streams of calls -/

section Streams

variable {κ σ : Type} (next : σ → κ → Option σ)

/-- The calls come one after the other in states in which they may. -/
def Allowed : σ → List κ → Prop
  | _, [] => True
  | s, call::calls => ∃ s', next s call = some s' ∧ Allowed s' calls

variable {next} {reader : σ → Reader} {written : κ → List UInt8} {shown : κ → List Event} {may plain : κ → Prop}

/-- When the reading of one call is right for the plain calls only, then a stream is read right, as far
as it was written at any time, for streams of plain calls only. -/
theorem prefixes_read_iff
    (hplain : ∀ s call s', may call → next s call = some s' → plain call →
      (reader s).read (written call) = (reader s',shown call))
    (honly : ∀ s call s', may call → next s call = some s' →
      ((reader s).read (written call)).2 = shown call → plain call)
    {s : σ} {calls : List κ} (hmay : ∀ call ∈ calls, may call) (hallowed : Allowed next s calls) :
    (∀ before, before <+: calls → ((reader s).read (before.flatMap written)).2 = before.flatMap shown) ↔
      ∀ call ∈ calls, plain call := by
  induction calls generalizing s with
  | nil => simp [read]
  | cons call calls ih =>
    obtain ⟨s',hnext,hrest⟩ := hallowed
    have hcall := hmay call List.mem_cons_self
    have hafter := ih (fun other hother => hmay other (.tail _ hother)) hrest
    -- what follows is read in the state after the call
    have hread (hc : plain call) (before : List κ) : ((reader s).read ((call::before).flatMap written)).2 =
        shown call ++ ((reader s').read (before.flatMap written)).2 := by
      rw [List.flatMap_cons,read_append,hplain s call s' hcall hnext hc]
    constructor
    · intro h
      have hfirst := h [call] ⟨calls,rfl⟩
      have hc : plain call := honly s call s' hcall hnext (by simpa using hfirst)
      refine List.forall_mem_cons.mpr ⟨hc,hafter.mp fun before hbefore => ?_⟩
      have hlater := h (call::before) (List.cons_prefix_cons.mpr ⟨rfl,hbefore⟩)
      rw [hread hc,List.flatMap_cons] at hlater
      exact List.append_cancel_left hlater
    · intro h
      obtain ⟨hc,hcalls⟩ := List.forall_mem_cons.mp h
      intro before hbefore
      cases before with
      | nil => rfl
      | cons first before =>
        obtain ⟨rfl,hlater⟩ := List.cons_prefix_cons.mp hbefore
        rw [hread hc,hafter.mpr hcalls before hlater,List.flatMap_cons]

end Streams

end Reader

end ControlSequences
end NodeRustPty
