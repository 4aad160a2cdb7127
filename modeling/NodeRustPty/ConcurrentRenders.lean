import NodeRustPty.TreeWalks

/-! Calls of `Renderer::render` that overlap. The lock of the root is taken for every
step of a call, not for the call: the patches of one call meet roots of the other. -/
namespace NodeRustPty
namespace VirtualDom

/-! ### What two trees ask of a root -/

/-- The number of children, if there is a row of them. -/
def VNode.rowLength : VNode → Option ℕ
  | .text _ => none
  | .element elem => some elem.children.length

/-- Only a replacement asks nothing of the root, all other changes ask for an element, and a
child is removed only where the row is long enough. -/
def rowVisitor : Visitor Option (Option ℕ) where
  write _ row := row.map some
  retype _ row := row.map some
  replace node _ := some node.rowLength
  append _ row := row.map fun length => some (length+1)
  remove index row := row.bind fun length => if index.toUInt32.toNat < length then some (some (length-1)) else none

/-- What differs between the two trees can be changed at a root with this row. -/
def Fits (old new : VNode) (row : Option ℕ) : Prop := (rowVisitor.visit old new row).isSome

theorem rowVisitor_carry (root : VNode) (patch : Patch) :
    rowVisitor.carry root.rowLength patch = (rootVisitor.carry root patch).map VNode.rowLength := by
  cases patch with
  | removeChild index =>
    cases root with
    | text content => rfl
    | element elem =>
      simp only [Visitor.carry,rowVisitor,rootVisitor,VNode.changed,VNode.rowLength,removeAt,Option.bind_some]
      by_cases hindex : index.toUInt32.toNat < elem.children.length
      · rw [if_pos hindex,if_pos hindex,← List.length_eraseIdx_of_lt hindex]
        rfl
      · rw [if_neg hindex,if_neg hindex]
        rfl
  | appendChild node =>
    cases root with
    | text content => rfl
    | element elem => simp [Visitor.carry,rowVisitor,rootVisitor,VNode.changed,VNode.rowLength]
  | _ => cases root <;> rfl

theorem rowVisitor_visit (old new root : VNode) :
    rowVisitor.visit old new root.rowLength = (rootVisitor.visit old new root).map VNode.rowLength := by
  rw [← rowVisitor.carry_diff,← rootVisitor.carry_diff]
  induction diff old new generalizing root with
  | nil => rfl
  | cons patch patches ih =>
    rw [List.foldlM_cons,List.foldlM_cons,rowVisitor_carry]
    cases rootVisitor.carry root patch with
    | none => rfl
    | some root' => exact ih root'

/-- Where the two trees fit, the patches of `diff` are not refused. -/
theorem patchAll_isSome_iff (old new root : VNode) :
    (patchAll (diff old new) root).isSome ↔ Fits old new root.rowLength := by
  rw [patchAll_diff_eq_visit,Fits,rowVisitor_visit,Option.isSome_map]

/-! ### Steps of the calls -/

/-- How far a call has come. -/
inductive RenderCall
  | waiting
  | diffed (patches : List Patch)
  | applied
  | returned (result : Except String Unit)

/-- The steps that are behind a call. -/
def RenderCall.rank : RenderCall → ℕ
  | .waiting => 0
  | .diffed _ => 1
  | .applied => 2
  | .returned _ => 3

/-- The calls on one renderer, each in its own thread. -/
structure RenderThreads (ι : Type) where
  renderer : Renderer
  calls : ι → RenderCall

/-- Whose step is next, with the iteration orders of its maps. -/
structure Turn (ι : Type) where
  call : ι
  order : HashOrder String String

namespace RenderThreads

section Steps

variable {ι : Type} [DecidableEq ι] (newRoots : ι → VNode)

def start (renderer : Renderer) : RenderThreads ι where
  renderer := renderer
  calls := fun _ => .waiting

/-- The next step of a call: the root is cloned and compared, the patches are applied,
the new root is stored. A call that has returned takes no step. -/
def advance (order : HashOrder String String) (i : ι) (s : RenderThreads ι) : RenderThreads ι :=
  match s.calls i with
  | .waiting =>
    { s with calls := Function.update s.calls i (.diffed (diff s.renderer.root (newRoots i))) }
  | .diffed patches =>
    match applyPatches order patches s.renderer with
    | .ok () renderer => ⟨renderer,Function.update s.calls i .applied⟩
    | .error e renderer => ⟨renderer,Function.update s.calls i (.returned (.error e))⟩
  | .applied =>
    ⟨{ s.renderer with root := newRoots i },Function.update s.calls i (.returned (.ok ()))⟩
  | .returned _ => s

def runTurns (turns : List (Turn ι)) (s : RenderThreads ι) : RenderThreads ι :=
  turns.foldl (fun s turn => advance newRoots turn.order turn.call s) s

/-- The number of turns that a call is given. -/
def turnsOf (i : ι) (turns : List (Turn ι)) : ℕ := turns.countP (·.call = i)

theorem runTurns_append (before after : List (Turn ι)) (s : RenderThreads ι) :
    runTurns newRoots (before ++ after) s = runTurns newRoots after (runTurns newRoots before s) :=
  List.foldl_append

theorem runTurns_snoc (turns : List (Turn ι)) (turn : Turn ι) (s : RenderThreads ι) :
    runTurns newRoots (turns ++ [turn]) s =
      advance newRoots turn.order turn.call (runTurns newRoots turns s) :=
  runTurns_append newRoots turns [turn] s

variable {newRoots} {s : RenderThreads ι} {i : ι} {order : HashOrder String String}

theorem advance_waiting (h : s.calls i = .waiting) : advance newRoots order i s =
    { s with calls := Function.update s.calls i (.diffed (diff s.renderer.root (newRoots i))) } := by
  simp [advance,h]

theorem advance_applied (h : s.calls i = .applied) : advance newRoots order i s =
    ⟨{ s.renderer with root := newRoots i },Function.update s.calls i (.returned (.ok ()))⟩ := by
  simp [advance,h]

theorem advance_returned {result : Except String Unit} (h : s.calls i = .returned result) :
    advance newRoots order i s = s := by
  simp [advance,h]

theorem advance_diffed {patches : List Patch} {root : VNode} (h : s.calls i = .diffed patches)
    (hterminal : s.renderer.terminal.Reliable) (hroot : patchAll patches s.renderer.root = some root) :
    ∃ terminal : Terminal, terminal.Reliable ∧
      advance newRoots order i s = ⟨⟨root,terminal⟩,Function.update s.calls i .applied⟩ := by
  have hreach := applyPatches_reaches order patches s.renderer.root s.renderer.terminal hterminal
  rw [hroot] at hreach
  obtain ⟨terminal,hreliable,happly⟩ := hreach
  exact ⟨terminal,hreliable,by simp only [advance,h,happly]⟩

theorem advance_refused {patches : List Patch} (h : s.calls i = .diffed patches)
    (hterminal : s.renderer.terminal.Reliable) (hroot : patchAll patches s.renderer.root = none) :
    ∃ e, (advance newRoots order i s).calls i = .returned (.error e) := by
  have hreach := applyPatches_reaches order patches s.renderer.root s.renderer.terminal hterminal
  rw [hroot] at hreach
  obtain ⟨e,renderer,happly⟩ := hreach
  exact ⟨e,by simp only [advance,h,happly,Function.update_self]⟩

/-- Three turns without another call in between are `Renderer::render`. -/
theorem advance_three (h : s.calls i = .waiting) :
    advance newRoots order i (advance newRoots order i (advance newRoots order i s)) =
      match render order (newRoots i) s.renderer with
      | .ok () renderer => ⟨renderer,Function.update s.calls i (.returned (.ok ()))⟩
      | .error e renderer => ⟨renderer,Function.update s.calls i (.returned (.error e))⟩ := by
  have hrender : render order (newRoots i) s.renderer =
      EStateM.bind (applyPatches order (diff s.renderer.root (newRoots i)))
        (fun _ => setRoot (newRoots i)) s.renderer := rfl
  rw [hrender,advance_waiting h,EStateM.bind]
  cases happly : applyPatches order (diff s.renderer.root (newRoots i)) s.renderer with
  | ok result renderer => simp [advance,happly,setRoot,modify,modifyGet,MonadStateOf.modifyGet,EStateM.modifyGet]
  | error e renderer => simp [advance,happly]

/-! ### How far every call is -/

theorem advance_other {j : ι} (h : j ≠ i) : (advance newRoots order i s).calls j = s.calls j := by
  unfold advance
  split
  · simp [h]
  · split <;> simp [h]
  · simp [h]
  · rfl

theorem advance_rank : min 3 ((s.calls i).rank+1) ≤ ((advance newRoots order i s).calls i).rank := by
  unfold advance
  split
  · next h => simp [h,RenderCall.rank]
  · next h => split <;> simp [h,RenderCall.rank]
  · next h => simp [h,RenderCall.rank]
  · next h => simp [h,RenderCall.rank]

theorem runTurns_rank (turns : List (Turn ι)) (s : RenderThreads ι) (i : ι) :
    min 3 (turnsOf i turns) ≤ ((runTurns newRoots turns s).calls i).rank := by
  induction turns using List.reverseRecOn with
  | nil => simp [turnsOf]
  | append_singleton turns turn ih =>
    rw [runTurns_snoc]
    by_cases h : turn.call = i
    · subst h
      have hadvance : min 3 (((runTurns newRoots turns s).calls turn.call).rank+1) ≤
          ((advance newRoots turn.order turn.call (runTurns newRoots turns s)).calls turn.call).rank :=
        advance_rank
      simp only [turnsOf,List.countP_append] at ih ⊢
      simp
      omega
    · rw [advance_other (Ne.symm h)]
      simpa [turnsOf,h] using ih

theorem runTurns_returned {result : Except String Unit} (h : s.calls i = .returned result)
    (turns : List (Turn ι)) : (runTurns newRoots turns s).calls i = .returned result := by
  induction turns using List.reverseRecOn with
  | nil => exact h
  | append_singleton turns turn ih =>
    rw [runTurns_snoc]
    by_cases hi : turn.call = i
    · subst hi
      rw [advance_returned ih,ih]
    · rw [advance_other (Ne.symm hi),ih]

end Steps

/-! ### Two calls -/

variable {root : VNode} {newRoots : Bool → VNode}

/-- What the second of two calls may have seen when it is given its turn. -/
def Pending (second : VNode) (seen : List VNode) (call : RenderCall) : Prop :=
  call = .waiting ∨ ∃ old ∈ seen, call = .diffed (diff old second)

theorem Pending.mono {second : VNode} {seen later : List VNode} {call : RenderCall}
    (h : Pending second seen call) (hseen : seen ⊆ later) : Pending second later call := by
  rcases h with hwaiting | ⟨old,hold,hdiffed⟩
  · exact .inl hwaiting
  · exact .inr ⟨old,hseen hold,hdiffed⟩

/-- Whatever root of the first call the second new root is compared with, the differences fit
the roots of the first call that come later: the one that the changes leave and the new one. -/
def Compatible (root first second : VNode) : Prop :=
  ∀ applied, rootVisitor.visit root first root = some applied →
    (∀ old ∈ [root,applied], Fits old second applied.rowLength) ∧
      ∀ old ∈ [root,applied,first], Fits old second first.rowLength

/-- The states that two calls go through when all patches fit. -/
inductive Stage (root : VNode) (newRoots : Bool → VNode) (s : RenderThreads Bool) : Prop
  | before (hroot : s.renderer.root = root) (hcalls : ∀ i, Pending (newRoots i) [root] (s.calls i))
  | applied (i : Bool) (applied : VNode) (happly : patchAll (diff root (newRoots i)) root = some applied)
      (hroot : s.renderer.root = applied) (hfirst : s.calls i = .applied)
      (hsecond : Pending (newRoots !i) [root,applied] (s.calls !i))
  | stored (i : Bool) (applied : VNode) (happly : patchAll (diff root (newRoots i)) root = some applied)
      (hroot : s.renderer.root = newRoots i) (hfirst : s.calls i = .returned (.ok ()))
      (hsecond : Pending (newRoots !i) [root,applied,newRoots i] (s.calls !i))
  | after (hcalls : ∀ i, s.calls i = .applied ∨ s.calls i = .returned (.ok ()))
      (hroot : (∀ i, s.calls i = .returned (.ok ())) → ∃ i, s.renderer.root = newRoots i)

theorem forall_of_both {p : Bool → Prop} (i : Bool) (hself : p i) (hother : p !i) (j : Bool) : p j := by
  rcases Bool.eq_or_eq_not j i with rfl | rfl
  · exact hself
  · exact hother

variable {s : RenderThreads Bool} {order : HashOrder String String}

/-- A pending call is compared with the root, or its patches are applied to it. -/
theorem pending_advance {seen : List VNode} {j : Bool} (hterminal : s.renderer.terminal.Reliable)
    (h : Pending (newRoots j) seen (s.calls j))
    (hfits : ∀ old ∈ seen, Fits old (newRoots j) s.renderer.root.rowLength) :
    advance newRoots order j s =
        { s with calls := Function.update s.calls j (.diffed (diff s.renderer.root (newRoots j))) } ∨
      ∃ old ∈ seen, ∃ (after : VNode) (terminal : Terminal),
        patchAll (diff old (newRoots j)) s.renderer.root = some after ∧ terminal.Reliable ∧
        advance newRoots order j s = ⟨⟨after,terminal⟩,Function.update s.calls j .applied⟩ := by
  rcases h with hwaiting | ⟨old,hold,hdiffed⟩
  · exact .inl (advance_waiting hwaiting)
  · obtain ⟨after,hafter⟩ := Option.isSome_iff_exists.mp
      ((patchAll_isSome_iff old (newRoots j) s.renderer.root).mpr (hfits old hold))
    obtain ⟨terminal,hreliable,hadvance⟩ := advance_diffed hdiffed hterminal hafter
    exact .inr ⟨old,hold,after,terminal,hafter,hreliable,hadvance⟩

/-- What the two calls rely on. -/
structure Joint (root : VNode) (newRoots : Bool → VNode) : Prop where
  alone : ∀ i, Fits root (newRoots i) root.rowLength
  compatible : ∀ i, Compatible root (newRoots i) (newRoots !i)

/-- A stage of the two calls on a terminal that takes everything. -/
def Reliably (root : VNode) (newRoots : Bool → VNode) (s : RenderThreads Bool) : Prop :=
  s.renderer.terminal.Reliable ∧ Stage root newRoots s

theorem before_advance (hjoint : Joint root newRoots) (hterminal : s.renderer.terminal.Reliable)
    (hroot : s.renderer.root = root) (hcalls : ∀ i, Pending (newRoots i) [root] (s.calls i)) (j : Bool) :
    Reliably root newRoots (advance newRoots order j s) := by
  have hfits : ∀ old ∈ [root], Fits old (newRoots j) s.renderer.root.rowLength := by
    simpa [hroot] using hjoint.alone j
  obtain hdiffed | ⟨old,hold,after,terminal,hafter,hreliable,happlied⟩ :=
    pending_advance hterminal (hcalls j) hfits
  · rw [hdiffed,hroot]
    refine ⟨hterminal,.before hroot (forall_of_both j ?_ ?_)⟩
    · exact .inr ⟨root,by simp,Function.update_self ..⟩
    · simpa using hcalls !j
  · obtain rfl : old = root := by simpa using hold
    rw [hroot] at hafter
    rw [happlied]
    refine ⟨hreliable,.applied j after hafter rfl (Function.update_self ..) ?_⟩
    have hlater : [old] ⊆ [old,after] := by simp
    simpa using (hcalls !j).mono hlater

theorem applied_advance (hjoint : Joint root newRoots) (hterminal : s.renderer.terminal.Reliable)
    {i : Bool} {applied : VNode} (happly : patchAll (diff root (newRoots i)) root = some applied)
    (hroot : s.renderer.root = applied) (hfirst : s.calls i = .applied)
    (hsecond : Pending (newRoots !i) [root,applied] (s.calls !i)) (j : Bool) :
    Reliably root newRoots (advance newRoots order j s) := by
  rcases Bool.eq_or_eq_not j i with rfl | rfl
  · rw [advance_applied hfirst]
    refine ⟨hterminal,.stored j applied happly rfl (Function.update_self ..) ?_⟩
    have hlater : [root,applied] ⊆ [root,applied,newRoots j] := by simp
    simpa using hsecond.mono hlater
  · have hfits : ∀ old ∈ [root,applied], Fits old (newRoots !i) s.renderer.root.rowLength := by
      rw [hroot]
      exact (hjoint.compatible i applied (patchAll_diff_eq_visit .. ▸ happly)).1
    obtain hdiffed | ⟨old,hold,after,terminal,hafter,hreliable,happlied⟩ :=
      pending_advance hterminal hsecond hfits
    · rw [hdiffed]
      refine ⟨hterminal,.applied i applied happly hroot (by simpa using hfirst) (.inr ⟨applied,by simp,?_⟩)⟩
      simp [hroot]
    · rw [happlied]
      have hself : Function.update s.calls (!i) .applied i = .applied := by simpa using hfirst
      refine ⟨hreliable,.after (forall_of_both i (.inl hself) (.inl (Function.update_self ..))) fun hall => ?_⟩
      have hreturned := hself.symm.trans (hall i)
      cases hreturned

theorem stored_advance (hjoint : Joint root newRoots) (hterminal : s.renderer.terminal.Reliable)
    {i : Bool} {applied : VNode} (happly : patchAll (diff root (newRoots i)) root = some applied)
    (hroot : s.renderer.root = newRoots i) (hfirst : s.calls i = .returned (.ok ()))
    (hsecond : Pending (newRoots !i) [root,applied,newRoots i] (s.calls !i)) (j : Bool) :
    Reliably root newRoots (advance newRoots order j s) := by
  rcases Bool.eq_or_eq_not j i with rfl | rfl
  · rw [advance_returned hfirst]
    exact ⟨hterminal,.stored j applied happly hroot hfirst hsecond⟩
  · have hfits : ∀ old ∈ [root,applied,newRoots i],
        Fits old (newRoots !i) s.renderer.root.rowLength := by
      rw [hroot]
      exact (hjoint.compatible i applied (patchAll_diff_eq_visit .. ▸ happly)).2
    obtain hdiffed | ⟨old,hold,after,terminal,hafter,hreliable,happlied⟩ :=
      pending_advance hterminal hsecond hfits
    · rw [hdiffed]
      refine ⟨hterminal,.stored i applied happly hroot (by simpa using hfirst) (.inr ⟨newRoots i,by simp,?_⟩)⟩
      simp [hroot]
    · rw [happlied]
      have hself : Function.update s.calls (!i) .applied i = .returned (.ok ()) := by simpa using hfirst
      have hother : Function.update s.calls (!i) RenderCall.applied (!i) = .applied := Function.update_self ..
      refine ⟨hreliable,.after (forall_of_both i (.inr hself) (.inl hother)) fun hall => ?_⟩
      have hreturned := hother.symm.trans (hall !i)
      cases hreturned

theorem after_advance (hterminal : s.renderer.terminal.Reliable)
    (hcalls : ∀ i, s.calls i = .applied ∨ s.calls i = .returned (.ok ()))
    (hroot : (∀ i, s.calls i = .returned (.ok ())) → ∃ i, s.renderer.root = newRoots i) (j : Bool) :
    Reliably root newRoots (advance newRoots order j s) := by
  rcases hcalls j with happlied | hreturned
  · rw [advance_applied happlied]
    refine ⟨hterminal,.after (forall_of_both j (.inr (Function.update_self ..)) ?_) fun _ => ⟨j,rfl⟩⟩
    simpa using hcalls !j
  · rw [advance_returned hreturned]
    exact ⟨hterminal,.after hcalls hroot⟩

/-- A turn leads from stage to stage. -/
theorem stage_advance (hjoint : Joint root newRoots) (h : Reliably root newRoots s) (j : Bool) :
    Reliably root newRoots (advance newRoots order j s) := by
  obtain ⟨hterminal,hstage⟩ := h
  cases hstage with
  | before hroot hcalls => exact before_advance hjoint hterminal hroot hcalls j
  | applied i applied happly hroot hfirst hsecond =>
    exact applied_advance hjoint hterminal happly hroot hfirst hsecond j
  | stored i applied happly hroot hfirst hsecond =>
    exact stored_advance hjoint hterminal happly hroot hfirst hsecond j
  | after hcalls hroot => exact after_advance hterminal hcalls hroot j

theorem stage_runTurns (hjoint : Joint root newRoots) {terminal : Terminal} (hterminal : terminal.Reliable)
    (turns : List (Turn Bool)) :
    Reliably root newRoots (runTurns newRoots turns (start ⟨root,terminal⟩)) := by
  induction turns using List.reverseRecOn with
  | nil => exact ⟨hterminal,.before rfl fun _ => .inl rfl⟩
  | append_singleton turns turn ih =>
    rw [runTurns_snoc]
    exact stage_advance hjoint ih turn.call

/-- Where both calls have had all their turns, both have returned `Ok`. -/
theorem stage_complete (h : Stage root newRoots s) (hrank : ∀ i, 3 ≤ (s.calls i).rank) :
    (∀ i, s.calls i = .returned (.ok ())) ∧ ∃ i, s.renderer.root = newRoots i := by
  have hpending {second : VNode} {seen : List VNode} {i : Bool} (hcall : Pending second seen (s.calls i)) :
      False := by
    have hi := hrank i
    rcases hcall with hwaiting | ⟨old,-,hdiffed⟩
    · simp [hwaiting,RenderCall.rank] at hi
    · simp [hdiffed,RenderCall.rank] at hi
  cases h with
  | before hroot hcalls => exact (hpending (hcalls true)).elim
  | applied i applied happly hroot hfirst hsecond => exact (hpending hsecond).elim
  | stored i applied happly hroot hfirst hsecond => exact (hpending hsecond).elim
  | after hcalls hroot =>
    have hall (i : Bool) : s.calls i = .returned (.ok ()) := by
      refine (hcalls i).resolve_left fun happlied => ?_
      have hi := hrank i
      simp [happlied,RenderCall.rank] at hi
    exact ⟨hall,hroot hall⟩

/-! ### Every order of turns is one that may happen -/

/-- Some turns lead to this root, where one call is as far as this and the other as that. -/
def Reached (root : VNode) (newRoots : Bool → VNode) (t : Terminal) (i : Bool) (now : VNode)
    (own other : RenderCall) : Prop :=
  ∃ (turns : List (Turn Bool)) (terminal : Terminal), terminal.Reliable ∧
    runTurns newRoots turns (start ⟨root,t⟩) = ⟨⟨now,terminal⟩,fun j => if j = i then own else other⟩

section Reached

variable {t : Terminal} {i : Bool} {now : VNode} {own other : RenderCall}

theorem reached_start (ht : t.Reliable) : Reached root newRoots t i root .waiting .waiting :=
  ⟨[],t,ht,by simp [runTurns,start]⟩

theorem Reached.swap (h : Reached root newRoots t i now own other) :
    Reached root newRoots t (!i) now other own := by
  obtain ⟨turns,terminal,hterminal,hrun⟩ := h
  refine ⟨turns,terminal,hterminal,hrun.trans ?_⟩
  congr
  funext j
  rcases Bool.eq_or_eq_not j i with rfl | rfl <;> simp

theorem update_own (call : RenderCall) :
    Function.update (fun j : Bool => if j = i then own else other) i call =
      fun j => if j = i then call else other := by
  funext j
  by_cases hj : j = i <;> simp [hj]

theorem Reached.diffed (h : Reached root newRoots t i now .waiting other) :
    Reached root newRoots t i now (.diffed (diff now (newRoots i))) other := by
  obtain ⟨turns,terminal,hterminal,hrun⟩ := h
  refine ⟨turns ++ [⟨i,.sorted⟩],terminal,hterminal,?_⟩
  rw [runTurns_snoc,hrun,advance_waiting (by simp),update_own]

theorem Reached.applied {patches : List Patch} {after : VNode}
    (h : Reached root newRoots t i now (.diffed patches) other) (hafter : patchAll patches now = some after) :
    Reached root newRoots t i after .applied other := by
  obtain ⟨turns,terminal,hterminal,hrun⟩ := h
  have hcall : (⟨⟨now,terminal⟩,fun j => if j = i then .diffed patches else other⟩ : RenderThreads Bool).calls i =
      .diffed patches := if_pos rfl
  obtain ⟨later,hlater,hadvance⟩ := advance_diffed hcall hterminal hafter
  refine ⟨turns ++ [⟨i,.sorted⟩],later,hlater,?_⟩
  rw [runTurns_snoc,hrun,hadvance,update_own]

theorem Reached.stored (h : Reached root newRoots t i now .applied other) :
    Reached root newRoots t i (newRoots i) (.returned (.ok ())) other := by
  obtain ⟨turns,terminal,hterminal,hrun⟩ := h
  refine ⟨turns ++ [⟨i,.sorted⟩],terminal,hterminal,?_⟩
  rw [runTurns_snoc,hrun,advance_applied (by simp),update_own]

end Reached

/-- Both calls return `Ok` and one of the new roots is left, in whatever order they take
their turns. -/
def AlwaysSucceed (root : VNode) (newRoots : Bool → VNode) (t : Terminal) : Prop :=
  ∀ turns, (∀ i, 3 ≤ turnsOf i turns) →
    (∀ i, (runTurns newRoots turns (start ⟨root,t⟩)).calls i = .returned (.ok ())) ∧
      ∃ i, (runTurns newRoots turns (start ⟨root,t⟩)).renderer.root = newRoots i

/-- A comparison that may be next fits the root: otherwise some order ends with an `Err`. -/
theorem AlwaysSucceed.fits {t : Terminal} {i : Bool} {now old new : VNode} {other : RenderCall}
    (h : AlwaysSucceed root newRoots t) (hreached : Reached root newRoots t i now (.diffed (diff old new)) other) :
    Fits old new now.rowLength := by
  rw [← patchAll_isSome_iff]
  by_contra hrefused
  obtain ⟨turns,terminal,hterminal,hrun⟩ := hreached
  have hnone : patchAll (diff old new) now = none := by simpa using hrefused
  have hcall : (⟨⟨now,terminal⟩,fun j => if j = i then .diffed (diff old new) else other⟩ :
      RenderThreads Bool).calls i = .diffed (diff old new) := if_pos rfl
  obtain ⟨e,herror⟩ := advance_refused hcall hterminal hnone
  rw [← hrun,← runTurns_snoc newRoots turns ⟨i,.sorted⟩] at herror
  -- the turns that are missing do not change what the call has returned
  let missing : List (Turn Bool) := List.replicate 3 ⟨false,.sorted⟩ ++ List.replicate 3 ⟨true,.sorted⟩
  have hcomplete (j : Bool) : 3 ≤ turnsOf j ((turns ++ [⟨i,.sorted⟩]) ++ missing) := by
    rw [turnsOf,List.countP_append]
    cases j <;> simp [missing]
  have hok := (h _ hcomplete).1 i
  rw [runTurns_append,runTurns_returned herror] at hok
  cases hok

theorem Reached.otherDiffed {t : Terminal} {i : Bool} {now : VNode} {own : RenderCall}
    (h : Reached root newRoots t i now own .waiting) :
    Reached root newRoots t i now own (.diffed (diff now (newRoots !i))) := by
  have hswap := h.swap.diffed.swap
  rwa [Bool.not_not] at hswap

theorem AlwaysSucceed.compatible {t : Terminal} (ht : t.Reliable) (h : AlwaysSucceed root newRoots t)
    (i : Bool) : Compatible root (newRoots i) (newRoots !i) := by
  intro applied hvisit
  have happly : patchAll (diff root (newRoots i)) root = some applied := (patchAll_diff_eq_visit ..).trans hvisit
  have hstart : Reached root newRoots t i root .waiting .waiting := reached_start ht
  have hearly := hstart.otherDiffed.diffed.applied happly
  have hfirst := hstart.diffed.applied happly
  refine ⟨fun old hold => ?_,fun old hold => ?_⟩
  · simp only [List.mem_cons,List.not_mem_nil,or_false] at hold
    rcases hold with rfl | rfl
    · exact h.fits hearly.swap
    · exact h.fits hfirst.otherDiffed.swap
  · simp only [List.mem_cons,List.not_mem_nil,or_false] at hold
    rcases hold with rfl | rfl | rfl
    · exact h.fits hearly.stored.swap
    · exact h.fits hfirst.otherDiffed.stored.swap
    · exact h.fits hfirst.stored.otherDiffed.swap

/-- A call that nothing comes between succeeds when its differences fit. -/
theorem render_ok_iff {t : Terminal} (ht : t.Reliable) (order : HashOrder String String) (newRoot : VNode) :
    (∃ r, render order newRoot ⟨root,t⟩ = .ok () r) ↔ Fits root newRoot root.rowLength := by
  have hrender : render order newRoot ⟨root,t⟩ =
      EStateM.bind (applyPatches order (diff root newRoot)) (fun _ => setRoot newRoot) ⟨root,t⟩ := rfl
  have hreach := applyPatches_reaches order (diff root newRoot) root t ht
  rw [← patchAll_isSome_iff,hrender,EStateM.bind]
  cases hpatch : patchAll (diff root newRoot) root with
  | none =>
    rw [hpatch] at hreach
    obtain ⟨e,r,happly⟩ := hreach
    simp [happly]
  | some after =>
    rw [hpatch] at hreach
    obtain ⟨t',-,happly⟩ := hreach
    simp only [happly,Option.isSome_some,iff_true]
    exact ⟨⟨newRoot,t'⟩,rfl⟩

/-- Two calls that succeed alone succeed in every order of their steps, and one of the
new roots is left, exactly when each new root is compatible with the roots of the other call. -/
theorem interleaved_renders_iff {t : Terminal} (ht : t.Reliable)
    (halone : ∀ i, ∃ order r, render order (newRoots i) ⟨root,t⟩ = .ok () r) :
    (∀ turns, (∀ i, 3 ≤ turnsOf i turns) →
      (∀ i, (runTurns newRoots turns (start ⟨root,t⟩)).calls i = .returned (.ok ())) ∧
        ∃ i, (runTurns newRoots turns (start ⟨root,t⟩)).renderer.root = newRoots i) ↔
      ∀ i, Compatible root (newRoots i) (newRoots !i) := by
  constructor
  · exact fun h => AlwaysSucceed.compatible ht h
  · intro hcompatible turns hturns
    have hfits (i : Bool) : Fits root (newRoots i) root.rowLength := by
      obtain ⟨order,r,hr⟩ := halone i
      exact (render_ok_iff ht order (newRoots i)).mp ⟨r,hr⟩
    have hstage := stage_runTurns ⟨hfits,hcompatible⟩ ht turns
    refine stage_complete hstage.2 fun i => ?_
    have hrank : min 3 (turnsOf i turns) ≤
        ((runTurns newRoots turns (start ⟨root,t⟩)).calls i).rank := runTurns_rank turns _ i
    rwa [Nat.min_eq_left (hturns i)] at hrank

/-- Elements of one tag without children: only props are written. -/
theorem patchAll_childless (tag : String) (oldProps newProps : Props) (oldStyles newStyles : Styles)
    (elem : VElement VNode) : ∃ props,
    patchAll (diff (.element ⟨tag,oldProps,oldStyles,[]⟩) (.element ⟨tag,newProps,newStyles,[]⟩))
      (.element elem) = some (.element { elem with props := props }) := by
  rw [patchAll_diff _ _ _ (by simp [sameShape,sameShapes])]
  simp only [strayEdits,rowEdits,List.append_nil,Option.map_some]
  exact ⟨_,rfl⟩

theorem fits_childless (tag : String) (oldProps newProps : Props) (oldStyles newStyles : Styles)
    (elem : VElement VNode) :
    Fits (.element ⟨tag,oldProps,oldStyles,[]⟩) (.element ⟨tag,newProps,newStyles,[]⟩)
      (VNode.element elem).rowLength := by
  obtain ⟨props,hpatch⟩ := patchAll_childless tag oldProps newProps oldStyles newStyles elem
  rw [← patchAll_isSome_iff,hpatch]
  rfl

/-- The two updates of `test_renderer_concurrent_access`. -/
theorem interleaved_renders_updates :
    let element (content : String) : VNode := .element ⟨"text",(∅ : Props).insert "content" content,∅,[]⟩
    let newRoots (i : Bool) : VNode := if i then element "Updated from main" else element "Updated from thread"
    ∀ turns, (∀ i, 3 ≤ turnsOf i turns) →
      (∀ i, (runTurns newRoots turns (start ⟨element "Initial",.quiet⟩)).calls i = .returned (.ok ())) ∧
        ∃ i, (runTurns newRoots turns (start ⟨element "Initial",.quiet⟩)).renderer.root = newRoots i := by
  intro element newRoots
  have hquiet : Terminal.quiet.Reliable := fun _ => rfl
  have hnew (i : Bool) : ∃ content, newRoots i = element content := by
    cases i
    · exact ⟨"Updated from thread",rfl⟩
    · exact ⟨"Updated from main",rfl⟩
  refine (interleaved_renders_iff hquiet fun i => ⟨.sorted,?_⟩).mpr fun i => ?_
  · obtain ⟨content,hcontent⟩ := hnew i
    rw [render_ok_iff hquiet,hcontent]
    exact fits_childless ..
  · obtain ⟨first,hfirst⟩ := hnew i
    obtain ⟨second,hsecond⟩ := hnew !i
    intro applied hvisit
    have happly : patchAll (diff (element "Initial") (newRoots i)) (element "Initial") = some applied :=
      (patchAll_diff_eq_visit ..).trans hvisit
    rw [hfirst] at happly
    rw [hfirst,hsecond]
    obtain ⟨props,hpatch⟩ := patchAll_childless "text" ((∅ : Props).insert "content" "Initial")
      ((∅ : Props).insert "content" first) ∅ ∅ ⟨"text",(∅ : Props).insert "content" "Initial",∅,[]⟩
    obtain rfl : _ = applied := Option.some.inj (hpatch.symm.trans happly)
    refine ⟨fun old hold => ?_,fun old hold => ?_⟩
    · simp only [List.mem_cons,List.not_mem_nil,or_false] at hold
      rcases hold with rfl | rfl <;> exact fits_childless ..
    · simp only [List.mem_cons,List.not_mem_nil,or_false] at hold
      rcases hold with rfl | rfl | rfl <;> exact fits_childless ..

/-- Both calls empty a row of two texts: the second one removes what is gone. -/
theorem interleaved_renders_refused : ¬ ∀ (root : VNode) (newRoots : Bool → VNode) (t : Terminal), t.Reliable →
    (∀ i, ∃ order r, render order (newRoots i) ⟨root,t⟩ = .ok () r) →
    ∀ turns, (∀ i, 3 ≤ turnsOf i turns) →
      (∀ i, (runTurns newRoots turns (start ⟨root,t⟩)).calls i = .returned (.ok ())) ∧
        ∃ i, (runTurns newRoots turns (start ⟨root,t⟩)).renderer.root = newRoots i := by
  intro h
  let row : VNode := .element ⟨"div",∅,∅,[.text "a",.text "b"]⟩
  let empty : VNode := .element ⟨"div",∅,∅,[]⟩
  have hquiet : Terminal.quiet.Reliable := fun _ => rfl
  have hvisit : rootVisitor.visit row empty row = some empty := by
    simp [row,empty,Visitor.visit,Visitor.writes,written_self,Visitor.visitRow,Visitor.removeFrom,rootVisitor,
      VNode.changed,removeAt]
  have halone (_ : Bool) : ∃ order r, render order empty ⟨row,.quiet⟩ = .ok () r := by
    refine ⟨.sorted,(render_ok_iff hquiet .sorted empty).mpr ?_⟩
    rw [Fits,rowVisitor_visit,hvisit]
    rfl
  have hcompatible := AlwaysSucceed.compatible hquiet (h row (fun _ => empty) .quiet hquiet halone) true
  have hfits := (hcompatible empty hvisit).1 row (by simp)
  simp [row,empty,Fits,Visitor.visit,Visitor.writes,written_self,Visitor.visitRow,Visitor.removeFrom,rowVisitor,
    VNode.rowLength] at hfits

end RenderThreads
end VirtualDom
end NodeRustPty
