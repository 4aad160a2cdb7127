import NodeRustPty.AnsiParser
import NodeRustPty.ControlStreams

/-! The other callbacks of the two parsers, and streams of all callbacks: a terminal that reads
what the handler was given gets the callbacks back as long as they are plain. -/
namespace NodeRustPty

open ControlSequences

/-! ### The callbacks -/

def ANSIParser.execute (byte : UInt8) : List Bytes := [[byte]]

/-- The bytes of one parameter, after the semicolon that parts it from the one before. -/
def extendParam (sequence : Bytes) (i : ℕ) (param : Bytes) : Bytes :=
  (if i > 0 then sequence ++ [0x3B] else sequence) ++ param

def ANSIParser.oscDispatch (params : List Bytes) (_bellTerminated : Bool) : List Bytes :=
  let sequence := params.zipIdx.foldl (fun sequence entry => extendParam sequence entry.2 entry.1) [0x1B,0x5D]
  [sequence ++ [0x07]]

def ANSIParser.put (byte : UInt8) : List Bytes := [[byte]]

def ANSIParser.unhook : List Bytes := [[0x1B,0x5C]]

def VirtualDom.AnsiParser.execute (_byte : UInt8) : List Bytes := []

def VirtualDom.AnsiParser.oscDispatch (_params : List Bytes) (_bellTerminated : Bool) : List Bytes := []

def VirtualDom.AnsiParser.hook (_params : List (List UInt16)) (_intermediates : Bytes) (_ignore : Bool)
    (_byte : Char) : List Bytes := []

def VirtualDom.AnsiParser.put (_byte : UInt8) : List Bytes := []

def VirtualDom.AnsiParser.unhook : List Bytes := []

/-- The callback for an event. The flag is `ignore` or `bell_terminated`. -/
def ANSIParser.callback (event : Event) (flag : Bool) : List Bytes :=
  match event with
  | .print c => print c
  | .execute byte => execute byte
  | .csi s => csiDispatch s.params (s.marker.toList ++ s.intermediates) flag (Char.ofNat s.final.toNat)
  | .osc params => oscDispatch params flag
  | .hook s => hook s.params (s.marker.toList ++ s.intermediates) flag (Char.ofNat s.final.toNat)
  | .put byte => put byte
  | .unhook => unhook

def VirtualDom.AnsiParser.callback (event : Event) (flag : Bool) : List Bytes :=
  match event with
  | .print c => print c
  | .execute byte => execute byte
  | .csi s => csiDispatch s.params (s.marker.toList ++ s.intermediates) flag (Char.ofNat s.final.toNat)
  | .osc params => oscDispatch params flag
  | .hook s => hook s.params (s.marker.toList ++ s.intermediates) flag (Char.ofNat s.final.toNat)
  | .put byte => put byte
  | .unhook => unhook

namespace AnsiStreams

/-- A callback with its flag. -/
abbrev Callback := Event × Bool

/-- All bytes that the handler is given. -/
def written (callback : Event → Bool → List Bytes) (call : Callback) : Bytes :=
  (callback call.1 call.2).flatten

/-- What the parser of `vte` calls back with: no control is printed, nothing that ends a string is in
it, and the bytes of a sequence stand where the grammar lets them. -/
def MayCall : Event → Prop
  | .print c => 0x20 ≤ c.toNat
  | .execute byte => (byte < 0x20 ∨ 0x80 ≤ byte ∧ byte < 0xA0) ∧ byte ≠ 0x1B
  | .csi s | .hook s => ∃ d : Dispatched, d.toSequence = s
  | .osc params => ∀ param ∈ params, ∀ byte ∈ param, Reader.isText byte = true
  | .put byte => byte < 0x7F ∧ byte ≠ 0x1B ∧ Reader.cancels byte = false
  | .unhook => True

/-- ASCII, plain sequences, and commands of at least one parameter, each without a semicolon. -/
def IsPlain : Event → Prop
  | .print c => c.toNat < 0x7F
  | .execute byte => byte < 0x20
  | .csi s | .hook s => ∃ d : Dispatched, d.toSequence = s ∧ Plain d
  | .osc params => params ≠ [] ∧ ∀ param ∈ params, (0x3B : UInt8) ∉ param
  | .put _ | .unhook => True

/-- Data stands between a hook and its unhook, and nothing else does. -/
def next : Bool → Callback → Option Bool
  | false, (.hook _,_) => some true
  | false, (.put _,_) => none
  | false, (.unhook,_) => none
  | false, _ => some false
  | true, (.put _,_) => some true
  | true, (.unhook,_) => some false
  | true, _ => none

def reader (hooked : Bool) : Reader := if hooked then .string true else .ground

/-! ### One callback -/

theorem foldl_extendParam (params : List Bytes) (i : ℕ) (sequence : Bytes) :
    (params.zipIdx (i+1)).foldl (fun sequence entry => extendParam sequence entry.2 entry.1) sequence =
      sequence ++ params.flatMap fun param => 0x3B::param := by
  induction params generalizing i sequence with
  | nil => simp
  | cons param params ih =>
    rw [List.zipIdx_cons,List.foldl_cons,ih,extendParam,if_pos (Nat.succ_pos i),List.flatMap_cons]
    simp only [List.append_assoc,List.nil_append,List.cons_append]

theorem oscDispatch_eq (params : List Bytes) (bellTerminated : Bool) :
    ANSIParser.oscDispatch params bellTerminated = [0x1B::0x5D::([0x3B].intercalate params ++ [0x07])] := by
  unfold ANSIParser.oscDispatch
  cases params with
  | nil => simp
  | cons param params =>
    have hfirst : extendParam [0x1B,0x5D] 0 param = [0x1B,0x5D] ++ param := by
      rw [extendParam,if_neg (lt_irrefl 0)]
    rw [List.zipIdx_cons,List.foldl_cons,hfirst,foldl_extendParam,intercalate_cons]
    simp only [List.append_assoc,List.cons_append,List.nil_append]

/-- The bytes between the introducer and the final byte of a dispatch. -/
def innerBytes (d : Dispatched) : Bytes :=
  [0x3B].intercalate (d.params.map flatParam) ++ (d.marker.toList ++ d.intermediates)

theorem isInner_innerBytes {d : Dispatched} {byte : UInt8} (h : byte ∈ innerBytes d) :
    Reader.isInner byte = true := by
  rw [Reader.isInner_iff]
  rcases List.mem_append.mp h with hparams | hrest
  · have hrange := isParameter_iff.mp (isParameter_of_mem_flat hparams)
    omega
  · rcases List.mem_append.mp hrest with hmarker | hintermediate
    · have hrange := isMarker_iff.mp (d.marker_range byte (by simpa using hmarker))
      omega
    · have hrange := isIntermediate_iff.mp (d.intermediates_range byte hintermediate)
      omega

/-- A dispatch is read as a whole. -/
theorem read_dispatch {introducer : UInt8} (hintroducer : introducer = 0x5B ∨ introducer = 0x50) (d : Dispatched) :
    Reader.ground.read [dispatchSequence introducer d.params (d.marker.toList ++ d.intermediates)
      (Char.ofNat d.final.toNat)].flatten = Reader.finish introducer (innerBytes d ++ [d.final]) := by
  rw [List.flatten_singleton,dispatchSequence_eq,toNat_command]
  exact Reader.read_sequence hintroducer (fun byte hbyte => isInner_innerBytes hbyte) d.final_range

/-- It is decoded exactly when it is plain. -/
theorem decode_dispatch_iff (introducer : UInt8) (d : Dispatched) :
    decode introducer (0x1B::introducer::(innerBytes d ++ [d.final])) = some d.toSequence ↔ Plain d := by
  rw [← dispatchSequence_readsBack_iff introducer d,ReadsBack,List.flatten_singleton,dispatchSequence_eq,
    toNat_command]
  rfl

theorem finish_csi {bytes : List UInt8} {s : Sequence} (h : decode 0x5B (0x1B::0x5B::bytes) = some s) :
    Reader.finish 0x5B bytes = (.ground,[.csi s]) := by
  simp [Reader.finish,h]

theorem finish_hook {bytes : List UInt8} {s : Sequence} (h : decode 0x50 (0x1B::0x50::bytes) = some s) :
    Reader.finish 0x50 bytes = (.string true,[.hook s]) := by
  simp [Reader.finish,h]

theorem decode_of_finish_csi {bytes : List UInt8} {s : Sequence} (h : (Reader.finish 0x5B bytes).2 = [.csi s]) :
    decode 0x5B (0x1B::0x5B::bytes) = some s := by
  cases hdecode : decode 0x5B (0x1B::0x5B::bytes) with
  | none => simp [Reader.finish,hdecode] at h
  | some s' => simpa [Reader.finish,hdecode] using h

theorem decode_of_finish_hook {bytes : List UInt8} {s : Sequence} (h : (Reader.finish 0x50 bytes).2 = [.hook s]) :
    decode 0x50 (0x1B::0x50::bytes) = some s := by
  cases hdecode : decode 0x50 (0x1B::0x50::bytes) with
  | none => simp [Reader.finish,hdecode] at h
  | some s' => simpa [Reader.finish,hdecode] using h

section Calls

variable {call : Callback} {hooked hooked' : Bool}

theorem isText_intercalate {params : List Bytes} (h : ∀ param ∈ params, ∀ byte ∈ param, Reader.isText byte = true)
    {byte : UInt8} (hbyte : byte ∈ [0x3B].intercalate params) : Reader.isText byte = true := by
  rcases mem_intercalate hbyte with rfl | ⟨param,hparam,hbyte⟩
  · decide
  · exact h param hparam byte hbyte

/-- A plain callback is read back. -/
theorem read_callback (hmay : MayCall call.1) (hnext : next hooked call = some hooked') (hplain : IsPlain call.1) :
    (reader hooked).read (written ANSIParser.callback call) = (reader hooked',[call.1]) := by
  obtain ⟨event,flag⟩ := call
  cases event with
  | print c =>
    cases hooked <;> cases hnext
    exact Reader.read_printed hmay hplain
  | execute byte =>
    cases hooked <;> cases hnext
    exact Reader.read_execute hplain hmay.2
  | csi s =>
    cases hooked <;> cases hnext
    obtain ⟨d,rfl,hplain⟩ := hplain
    exact (read_dispatch (.inl rfl) d).trans (finish_csi ((decode_dispatch_iff 0x5B d).mpr hplain))
  | osc params =>
    cases hooked <;> cases hnext
    have hread := Reader.read_osc fun byte hbyte => isText_intercalate hmay hbyte
    rw [Reader.splitOn_intercalate_iff.mpr hplain] at hread
    change Reader.ground.read (ANSIParser.oscDispatch params flag).flatten = _
    rw [oscDispatch_eq,List.flatten_singleton,hread]
    rfl
  | hook s =>
    cases hooked <;> cases hnext
    obtain ⟨d,rfl,hplain⟩ := hplain
    exact (read_dispatch (.inr rfl) d).trans (finish_hook ((decode_dispatch_iff 0x50 d).mpr hplain))
  | put byte =>
    cases hooked <;> cases hnext
    exact Reader.read_put hmay.1 hmay.2.1 hmay.2.2
  | unhook =>
    cases hooked <;> cases hnext
    exact Reader.read_unhook

/-- What is read as the callback was a plain one. -/
theorem plain_of_read (hmay : MayCall call.1) (hnext : next hooked call = some hooked')
    (hread : ((reader hooked).read (written ANSIParser.callback call)).2 = [call.1]) : IsPlain call.1 := by
  obtain ⟨event,flag⟩ := call
  cases event with
  | print c =>
    cases hooked <;> cases hnext
    exact Reader.ascii_of_read hread
  | execute byte =>
    cases hooked <;> cases hnext
    -- the controls from `0x80` on are not read at all
    by_contra hcontrol
    have hrange := hmay.1.resolve_left hcontrol
    have hlow : ¬byte < 0x7F := by
      rw [UInt8.lt_iff_toNat_lt]
      exact Nat.not_lt.mpr ((show 0x7F ≤ 0x80 by omega).trans (UInt8.le_iff_toNat_le.mp hrange.1))
    have hcontrol : ¬byte < 0x20 := hcontrol
    simp [written,ANSIParser.callback,ANSIParser.execute,reader,Reader.read,Reader.step,hmay.2,hlow,hcontrol] at hread
  | csi s =>
    cases hooked <;> cases hnext
    obtain ⟨d,rfl⟩ := hmay
    have hfinish : (Reader.finish 0x5B (innerBytes d ++ [d.final])).2 = [.csi d.toSequence] := by
      rw [← read_dispatch (.inl rfl) d]
      exact hread
    exact ⟨d,rfl,(decode_dispatch_iff 0x5B d).mp (decode_of_finish_csi hfinish)⟩
  | osc params =>
    cases hooked <;> cases hnext
    refine Reader.splitOn_intercalate_iff.mp ?_
    change (Reader.ground.read (ANSIParser.oscDispatch params flag).flatten).2 = _ at hread
    rw [oscDispatch_eq,List.flatten_singleton,
      Reader.read_osc fun byte hbyte => isText_intercalate hmay hbyte] at hread
    simpa using hread
  | hook s =>
    cases hooked <;> cases hnext
    obtain ⟨d,rfl⟩ := hmay
    have hfinish : (Reader.finish 0x50 (innerBytes d ++ [d.final])).2 = [.hook d.toSequence] := by
      rw [← read_dispatch (.inr rfl) d]
      exact hread
    exact ⟨d,rfl,(decode_dispatch_iff 0x50 d).mp (decode_of_finish_hook hfinish)⟩
  | put byte => trivial
  | unhook => trivial

end Calls

/-! ### Streams of callbacks -/

/-- The callbacks that the parser of `virtual_dom` writes out. -/
def isShown : Event → Bool
  | .print _ => true
  | .csi _ => true
  | _ => false

/-- What the one parser writes of a callback, the other one writes too. -/
theorem written_shown {call : Callback} (h : isShown call.1 = true) :
    written VirtualDom.AnsiParser.callback call = written ANSIParser.callback call := by
  obtain ⟨event,flag⟩ := call
  cases event with
  | print c => rfl
  | csi s => rfl
  | _ => cases h

theorem written_hidden {call : Callback} (h : isShown call.1 = false) :
    written VirtualDom.AnsiParser.callback call = [] := by
  obtain ⟨event,flag⟩ := call
  cases event with
  | print c => cases h
  | csi s => cases h
  | _ => rfl

theorem next_shown {call : Callback} (h : isShown call.1 = true) : next false call = some false := by
  obtain ⟨event,flag⟩ := call
  cases event with
  | print c => rfl
  | csi s => rfl
  | _ => cases h

/-- The event of a callback that is written out. -/
def shown (call : Callback) : List Event := if isShown call.1 = true then [call.1] else []

theorem flatMap_shown (calls : List Callback) : calls.flatMap shown = (calls.map Prod.fst).filter isShown := by
  induction calls with
  | nil => rfl
  | cons call calls ih =>
    rw [List.flatMap_cons,ih,shown,List.map_cons,List.filter_cons]
    split <;> rfl

theorem read_shown {call : Callback} (hmay : MayCall call.1) (hplain : isShown call.1 = true → IsPlain call.1) :
    Reader.ground.read (written VirtualDom.AnsiParser.callback call) = (.ground,shown call) := by
  cases hshown : isShown call.1 with
  | true =>
    rw [written_shown hshown,shown,if_pos hshown]
    exact read_callback hmay (next_shown hshown) (hplain hshown)
  | false =>
    rw [written_hidden hshown,shown,if_neg (by simp [hshown])]
    rfl

theorem plain_of_read_shown {call : Callback} (hmay : MayCall call.1)
    (hread : (Reader.ground.read (written VirtualDom.AnsiParser.callback call)).2 = shown call)
    (hshown : isShown call.1 = true) : IsPlain call.1 := by
  rw [written_shown hshown,shown,if_pos hshown] at hread
  exact plain_of_read hmay (next_shown hshown) hread

theorem allowed_always (calls : List Callback) : Reader.Allowed (fun (_ : Unit) _ => some ()) () calls := by
  induction calls with
  | nil => trivial
  | cons call calls ih => exact ⟨(),rfl,ih⟩

/-- A stream is read back as it was called, at each of its callbacks, exactly when all callbacks are
plain. What the parser of `virtual_dom` writes is read as the stream without the callbacks that it
leaves out, exactly when all others are plain. -/
theorem streams_readBack_iff (calls : List Callback) (hmay : ∀ call ∈ calls, MayCall call.1)
    (hallowed : Reader.Allowed next false calls) :
    ((∀ before, before <+: calls →
        (Reader.ground.read (before.flatMap (written ANSIParser.callback))).2 = before.map Prod.fst) ↔
      ∀ call ∈ calls, IsPlain call.1) ∧
    ((∀ before, before <+: calls →
        (Reader.ground.read (before.flatMap (written VirtualDom.AnsiParser.callback))).2 =
          (before.map Prod.fst).filter isShown) ↔
      ∀ call ∈ calls, isShown call.1 = true → IsPlain call.1) := by
  constructor
  · have hiff := @Reader.prefixes_read_iff _ _ next reader (written ANSIParser.callback)
      (fun call => [call.1]) (fun call => MayCall call.1) (fun call => IsPlain call.1)
      (fun _ _ _ => read_callback) (fun _ _ _ => plain_of_read) false calls hmay hallowed
    simp only [← List.map_eq_flatMap] at hiff
    exact hiff
  · have hiff := @Reader.prefixes_read_iff _ _ (fun (_ : Unit) _ => some ()) (fun _ => .ground)
      (written VirtualDom.AnsiParser.callback) shown (fun call => MayCall call.1)
      (fun call => isShown call.1 = true → IsPlain call.1) (fun _ _ _ hcall _ hplain => read_shown hcall hplain)
      (fun _ _ _ hcall _ hread => plain_of_read_shown hcall hread) () calls hmay (allowed_always calls)
    simp only [flatMap_shown] at hiff
    exact hiff

/-- A letter, a line feed, a title, a string of one byte, and the cursor shown. -/
def titled : List Callback :=
  [(.print 'a',false),(.execute 0x0A,false),(.osc [[0x32],[0x74]],true),(.hook showCursor.toSequence,false),
    (.put 0x78,false),(.unhook,false),(.csi showCursor.toSequence,false)]

theorem streams_readBack_titled :
    ((∀ before, before <+: titled →
        (Reader.ground.read (before.flatMap (written ANSIParser.callback))).2 = before.map Prod.fst) ↔
      ∀ call ∈ titled, IsPlain call.1) ∧
    ((∀ before, before <+: titled →
        (Reader.ground.read (before.flatMap (written VirtualDom.AnsiParser.callback))).2 =
          (before.map Prod.fst).filter isShown) ↔
      ∀ call ∈ titled, isShown call.1 = true → IsPlain call.1) := by
  refine streams_readBack_iff titled ?_ ⟨_,rfl,_,rfl,_,rfl,_,rfl,_,rfl,_,rfl,_,rfl,trivial⟩
  have hcursor : ∃ d : Dispatched, d.toSequence = showCursor.toSequence := ⟨showCursor,rfl⟩
  simp [titled,MayCall,hcursor,Reader.isText,Reader.cancels]

end AnsiStreams
end NodeRustPty
