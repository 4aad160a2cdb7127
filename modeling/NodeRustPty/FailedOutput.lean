import NodeRustPty.DiffChanges
import NodeRustPty.FailedRenders
import NodeRustPty.OutputHandlers

/-! `render` and `process_and_send` of `pty/pty_renderer.rs` when flushes may fail: an
error leaves the root changed and the cached node as it was. -/
namespace NodeRustPty
namespace VirtualDom

open Std

/-! ### The one patch of an output -/

theorem diff_emptyRoot (text : String) : diff emptyRoot (textNode text) = [.replace (textNode text)] := by
  simp [diff,dropNone,emptyRoot,textNode]

/-- Two texts that differ are one patch of the props. -/
theorem diff_textNode {before after : String} (h : before ≠ after) :
    ∃ props, diff (textNode before) (textNode after) = [.updateProps props] := by
  have hne : textNode before ≠ textNode after := textNode_inj.not.mpr h
  have hprops : (∅ : Props).insert "content" before ≠ (∅ : Props).insert "content" after := by
    intro he
    exact hne (by rw [textNode,textNode,he])
  have hpatch : propsPatch (diffProps ((∅ : Props).insert "content" before) ((∅ : Props).insert "content" after)) =
      [.updateProps (diffProps ((∅ : Props).insert "content" before) ((∅ : Props).insert "content" after))] := by
    rw [propsPatch,if_neg ((diffProps_isEmpty _ _).not.mpr hprops)]
  have hrow : diffChildren 0 [] [] = [] := rfl
  refine ⟨diffProps ((∅ : Props).insert "content" before) ((∅ : Props).insert "content" after),
    (diff_element hne).trans ?_⟩
  rw [hpatch,(propsPatch_eq_nil (∅ : Styles) ∅).mpr rfl,hrow]
  rfl

/-- Whether or not a flush fails, such a patch leaves the root it is for. -/
theorem flushes_changesFirst (order : HashOrder String String) {patch : Patch} {root after : VNode}
    (h : patch.internal.onRoot root = some after) (hfirst : patch.internal.changesFirst = true) :
    Flushes (applyPatches order [patch]) root (patch.internal.flushes after) after after := by
  have hflushes := flushes_applyPatch order h
  rw [PatchInternal.interrupted,if_pos hfirst] at hflushes
  exact hflushes.bind flushes_pure

namespace PtyRenderer

/-! ### One call -/

/-- The two entry points that report an error. -/
inductive Reporting
  | render (data : Bytes)
  | processAndSend (sessionId : UInt32) (data : Bytes)

def Reporting.payload : Reporting → Bytes
  | .render data => data
  | .processAndSend _ data => data

/-- What the call is to show. -/
def Reporting.text (call : Reporting) : String := Utf8.fromUtf8Lossy call.payload

def Reporting.run (order : HashOrder String String) : Reporting → PtyRenderM Unit
  | .render data => PtyRenderer.render order data
  | .processAndSend sessionId data => PtyRenderer.processAndSend order sessionId data

theorem Reporting.run_eq (order : HashOrder String String) (call : Reporting) :
    call.run order = renderOutput order call.payload := by
  cases call <;> rfl

/-- The node that a text shown last is cached as. -/
def cachedNode (text : Option String) : VNode := text.elim emptyRoot textNode

variable {order : HashOrder String String} {call : Reporting} {root prevVdom : VNode} {t : Terminal}

theorem applyOutput_eq (order : HashOrder String String) (call : Reporting) (root prevVdom : VNode) (t : Terminal) :
    applyOutput order call.payload ⟨⟨root,t⟩,prevVdom⟩ =
      onRenderer (applyPatches order (diff prevVdom (textNode call.text))) ⟨⟨root,t⟩,prevVdom⟩ := rfl

/-- The call is what applying the patches gives, and the cached node follows a success only. -/
theorem run_of_ok {after : VNode} {t' : Terminal}
    (h : applyPatches order (diff prevVdom (textNode call.text)) ⟨root,t⟩ = .ok () ⟨after,t'⟩) :
    call.run order ⟨⟨root,t⟩,prevVdom⟩ = .ok () ⟨⟨after,t'⟩,textNode call.text⟩ := by
  have happly := applyOutput_eq order call root prevVdom t
  rw [onRenderer,h] at happly
  rw [call.run_eq]
  simp only [renderOutput,Bind.bind,EStateM.bind,happly]
  rfl

theorem run_of_error {after : VNode} {t' : Terminal} {e : String}
    (h : applyPatches order (diff prevVdom (textNode call.text)) ⟨root,t⟩ = .error e ⟨after,t'⟩) :
    call.run order ⟨⟨root,t⟩,prevVdom⟩ = .error e ⟨⟨after,t'⟩,prevVdom⟩ := by
  have happly := applyOutput_eq order call root prevVdom t
  rw [onRenderer,h] at happly
  rw [call.run_eq]
  simp only [renderOutput,Bind.bind,EStateM.bind,happly]

/-- The text that is cached already changes nothing. -/
theorem run_cached (root : VNode) (t : Terminal) :
    call.run order ⟨⟨root,t⟩,textNode call.text⟩ = .ok () ⟨⟨root,t⟩,textNode call.text⟩ := by
  have hdiff : diff (textNode call.text) (textNode call.text) = [.none] := by simp [diff,textNode]
  refine run_of_ok ?_
  rw [hdiff]
  rfl

/-- Any other text becomes the root, also when a flush fails and the call is an error. -/
theorem run_other (order : HashOrder String String) {cached : Option String} (hcached : cached ≠ some call.text)
    (hroot : cached ≠ none → ∃ shown, root = textNode shown) (t : Terminal) :
    (t.Takes 1 → ∃ t', call.run order ⟨⟨root,t⟩,cachedNode cached⟩ =
      .ok () ⟨⟨textNode call.text,t'⟩,textNode call.text⟩) ∧
    (¬t.Takes 1 → ∃ e t', call.run order ⟨⟨root,t⟩,cachedNode cached⟩ =
      .error e ⟨⟨textNode call.text,t'⟩,cachedNode cached⟩) := by
  have hpatch : ∃ patch : Patch, diff (cachedNode cached) (textNode call.text) = [patch] ∧
      patch.internal.onRoot root = some (textNode call.text) ∧ patch.internal.changesFirst = true ∧
      patch.internal.flushes (textNode call.text) = 1 := by
    cases cached with
    | none => exact ⟨.replace (textNode call.text),diff_emptyRoot _,rfl,rfl,by
        simp [Patch.internal,PatchInternal.flushes,textNode,VNode.flushes]⟩
    | some text =>
      obtain ⟨shown,rfl⟩ := hroot (by simp)
      have hne : text ≠ call.text := fun e => hcached (congrArg _ e)
      obtain ⟨props,hprops⟩ := diff_textNode hne
      have hall := patchAll_other hne shown
      rw [hprops,patchAll_cons] at hall
      refine ⟨.updateProps props,hprops,?_,rfl,rfl⟩
      rw [← hall]
      exact (Option.bind_fun_some _).symm
  obtain ⟨patch,hdiff,honRoot,hfirst,hcount⟩ := hpatch
  have hflushes := flushes_changesFirst order honRoot hfirst t
  rw [← hdiff,hcount] at hflushes
  refine ⟨fun htakes => ?_,fun hfault => ?_⟩
  · obtain ⟨t',-,happly⟩ := hflushes.1 htakes
    exact ⟨t',run_of_ok happly⟩
  · obtain ⟨e,t',happly⟩ := hflushes.2 hfault
    exact ⟨e,t',run_of_error happly⟩

/-! ### Histories -/

/-- A call with the iteration orders of its maps and how it ended. -/
structure Ended where
  order : HashOrder String String
  call : Reporting
  ok : Bool

/-- The calls ended so, one after another, and this is the renderer after them. -/
inductive Renders (t : Terminal) : List Ended → PtyRenderer → Prop
  | nil : Renders t [] (new t)
  | ok {history : List Ended} {p p' : PtyRenderer} {order : HashOrder String String} {call : Reporting}
      (h : Renders t history p) (hrun : call.run order p = .ok () p') :
      Renders t (history ++ [⟨order,call,true⟩]) p'
  | error {history : List Ended} {p p' : PtyRenderer} {order : HashOrder String String} {call : Reporting}
      {e : String} (h : Renders t history p) (hrun : call.run order p = .error e p') :
      Renders t (history ++ [⟨order,call,false⟩]) p'

/-- The text of the last call that succeeded. -/
def shownText (history : List Ended) : Option String :=
  (history.filter Ended.ok).getLast?.map fun ended => ended.call.text

theorem shownText_snoc (history : List Ended) (ended : Ended) : shownText (history ++ [ended]) =
    if ended.ok = true then some ended.call.text else shownText history := by
  by_cases h : ended.ok = true <;> simp [shownText,h]

/-- A successful call leaves its text as the root. -/
def Shown (t : Terminal) (before : List Ended) (ended : Ended) : Prop :=
  ended.ok = true → ∀ p, Renders t (before ++ [ended]) p → p.renderer.root = outputNode ended.call.payload

/-- The text of the last successful call is not asked for again right after a failed one. -/
def Fresh (before : List Ended) (ended : Ended) : Prop :=
  shownText before = some ended.call.text → before.getLast?.map Ended.ok = some true

/-- What holds as long as every success was shown. -/
structure InStep (history : List Ended) (p : PtyRenderer) : Prop where
  prevVdom : p.prevVdom = cachedNode (shownText history)
  root : shownText history ≠ none → ∃ shown, p.renderer.root = textNode shown
  agrees : ∀ text, shownText history = some text →
    (p.renderer.root = textNode text ↔ history.getLast?.map Ended.ok = some true)

theorem renders_snoc {history : List Ended} {ended : Ended} {p' : PtyRenderer} :
    Renders t (history ++ [ended]) p' ↔ ∃ p, Renders t history p ∧
      (ended.ok = true ∧ ended.call.run ended.order p = .ok () p' ∨
        ended.ok = false ∧ ∃ e, ended.call.run ended.order p = .error e p') := by
  constructor
  · generalize hall : history ++ [ended] = all
    intro h
    cases h with
    | nil => simp at hall
    | ok h hrun =>
      obtain ⟨rfl,rfl⟩ := List.append_singleton_inj.mp hall
      exact ⟨_,h,.inl ⟨rfl,hrun⟩⟩
    | error h hrun =>
      obtain ⟨rfl,rfl⟩ := List.append_singleton_inj.mp hall
      exact ⟨_,h,.inr ⟨rfl,_,hrun⟩⟩
  · obtain ⟨order,call,ok⟩ := ended
    rintro ⟨p,h,⟨hok,hrun⟩ | ⟨hok,e,hrun⟩⟩
    · obtain rfl : ok = true := hok
      exact h.ok hrun
    · obtain rfl : ok = false := hok
      exact h.error hrun

theorem renders_nil {p : PtyRenderer} (h : Renders t [] p) : p = new t := by
  generalize hnil : ([] : List Ended) = history at h
  cases h with
  | nil => rfl
  | ok | error => exact absurd hnil.symm (by simp)

theorem Renders.unique {history : List Ended} {p p' : PtyRenderer} (h : Renders t history p)
    (h' : Renders t history p') : p = p' := by
  induction history using List.reverseRecOn generalizing p p' with
  | nil => rw [renders_nil h,renders_nil h']
  | append_singleton history ended ih =>
    obtain ⟨q,hq,hend⟩ := renders_snoc.mp h
    obtain ⟨q',hq',hend'⟩ := renders_snoc.mp h'
    obtain rfl := ih hq hq'
    rcases hend with ⟨hok,hrun⟩ | ⟨hok,e,hrun⟩ <;> rcases hend' with ⟨hok',hrun'⟩ | ⟨hok',e',hrun'⟩
    · rw [hrun] at hrun'
      cases hrun'
      rfl
    · rw [hok] at hok'
      cases hok'
    · rw [hok] at hok'
      cases hok'
    · rw [hrun] at hrun'
      cases hrun'
      rfl

/-- The cached text again: nothing is patched, so the call succeeds and leaves the root. -/
theorem InStep.repeated {history : List Ended} {ended : Ended} {p p' : PtyRenderer} (h : InStep history p)
    (hcached : shownText history = some ended.call.text)
    (hend : ended.ok = true ∧ ended.call.run ended.order p = .ok () p' ∨
      ended.ok = false ∧ ∃ e, ended.call.run ended.order p = .error e p') :
    ended.ok = true ∧ p' = p := by
  obtain ⟨⟨root,terminal⟩,prevVdom⟩ := p
  obtain rfl : prevVdom = textNode ended.call.text := h.prevVdom.trans (by rw [hcached]; rfl)
  rw [run_cached] at hend
  rcases hend with ⟨hok,hend⟩ | ⟨-,e,hend⟩
  · cases hend
    exact ⟨hok,rfl⟩
  · cases hend

/-- Any other text: it becomes the root, and the cached node when the call succeeds. -/
theorem InStep.other {history : List Ended} {ended : Ended} {p p' : PtyRenderer} (h : InStep history p)
    (hcached : shownText history ≠ some ended.call.text)
    (hend : ended.ok = true ∧ ended.call.run ended.order p = .ok () p' ∨
      ended.ok = false ∧ ∃ e, ended.call.run ended.order p = .error e p') :
    p'.renderer.root = textNode ended.call.text ∧ p'.prevVdom = cachedNode (shownText (history ++ [ended])) := by
  obtain ⟨⟨root,terminal⟩,prevVdom⟩ := p
  obtain rfl : prevVdom = cachedNode (shownText history) := h.prevVdom
  rw [shownText_snoc]
  have hrun := run_other ended.order hcached h.root terminal
  by_cases htakes : terminal.Takes 1
  · obtain ⟨t',hok⟩ := hrun.1 htakes
    rw [hok] at hend
    rcases hend with ⟨hok,hend⟩ | ⟨-,e,hend⟩
    · cases hend
      rw [if_pos hok]
      exact ⟨rfl,rfl⟩
    · cases hend
  · obtain ⟨e,t',herror⟩ := hrun.2 htakes
    rw [herror] at hend
    rcases hend with ⟨-,hend⟩ | ⟨hok,e,hend⟩
    · cases hend
    · cases hend
      rw [if_neg (by simp [hok])]
      exact ⟨rfl,rfl⟩

/-- One more call: it is shown exactly when it is fresh, and then the two are in step again. -/
theorem InStep.snoc {history : List Ended} {ended : Ended} {p p' : PtyRenderer} (h : InStep history p)
    (hp : Renders t history p) (hp' : Renders t (history ++ [ended]) p') :
    (Shown t history ended ↔ Fresh history ended) ∧ (Fresh history ended → InStep (history ++ [ended]) p') := by
  obtain ⟨q,hq,hend⟩ := renders_snoc.mp hp'
  obtain rfl := hq.unique hp
  have hshown : Shown t history ended ↔ (ended.ok = true → p'.renderer.root = textNode ended.call.text) := by
    refine forall_congr' fun hok => ⟨fun hall => hall p' hp',fun hroot q hq => ?_⟩
    rw [hq.unique hp']
    exact hroot
  rw [hshown]
  by_cases hcached : shownText history = some ended.call.text
  · obtain ⟨hok,rfl⟩ := h.repeated hcached hend
    have hagrees := h.agrees _ hcached
    have hafter : shownText (history ++ [ended]) = shownText history := by
      rw [shownText_snoc,if_pos hok,hcached]
    refine ⟨?_,fun hfresh => ?_⟩
    · simp only [hok,forall_const,Fresh,hcached,hagrees]
    · refine ⟨by rw [hafter,h.prevVdom],by rw [hafter]; exact h.root,fun text htext => ?_⟩
      obtain rfl : ended.call.text = text := Option.some.inj (hcached.symm.trans (hafter.symm.trans htext))
      simp [hok,hagrees.mpr (hfresh hcached)]
  · obtain ⟨hroot,hprev⟩ := h.other hcached hend
    refine ⟨iff_of_true (fun _ => hroot) fun he => absurd he hcached,fun _ => ⟨hprev,fun _ => ⟨_,hroot⟩,?_⟩⟩
    intro text htext
    rw [shownText_snoc] at htext
    rw [hroot,textNode_inj,List.getLast?_concat,Option.map_some,Option.some.injEq]
    cases hok : ended.ok with
    | true =>
      rw [if_pos hok] at htext
      exact iff_of_true (Option.some.inj htext) rfl
    | false =>
      rw [if_neg (by simp [hok])] at htext
      exact iff_of_false (fun e => hcached (e ▸ htext)) Bool.false_ne_true

end PtyRenderer
end VirtualDom
end NodeRustPty
