import NodeRustPty.TreeWalks

/-! What the terminal shows after calls of `render`, compared with a full redraw. Each
patch prints in its own way, and only two kinds of them clear the screen before. -/
namespace NodeRustPty
namespace VirtualDom

open Std

/-! ### What a redraw prints -/

/-- One string of a redraw: a text as it is, or the content of a text element between the
codes of its styles and the reset. -/
inductive Piece
  | text (content : String)
  | styled (codes : Multiset String) (content : String)

/-- The codes of a list of styles, without the styles that have none. -/
def codesOf (entries : List (String × String)) : List String :=
  (entries.map fun entry => styleCode entry.1 entry.2).filter (· ≠ "")

def styleCodes (styles : Styles) : Multiset String := codesOf styles.toList

/-- The string that a piece is printed as. The style codes may come in any order. -/
def Piece.Prints : Piece → String → Prop
  | .text content,printed => printed = content
  | .styled codes content,printed => ∃ ordered : List String, ordered = codes ∧
    printed = ordered.foldl (· ++ ·) "" ++ content ++ "\x1b[0m"

mutual
def pieces : VNode → List Piece
  | .text text => [.text text]
  | .element elem => elementPieces elem
def elementPieces : VElement VNode → List Piece
  | ⟨tag,props,styles,children⟩ =>
    if tag = "text" then (props["content"]?.map (Piece.styled (styleCodes styles))).toList else rowPieces children
def rowPieces : List VNode → List Piece
  | [] => []
  | child::children => pieces child ++ rowPieces children
end

abbrev PrintAll : List Piece → List String → Prop := List.Forall₂ Piece.Prints

def clearSequence : String := "\x1b[2J\x1b[1;1H"

/-- What clearing the screen and rendering a node prints. -/
def Redraws (node : VNode) (printed : List String) : Prop :=
  ∃ rest, printed = clearSequence::rest ∧ PrintAll (pieces node) rest

/-! ### The screen -/

/-- The screen after one more string. -/
def display (shown : List String) (printed : String) : List String :=
  if printed = clearSequence then [] else shown ++ [printed]

/-- The strings since the last one that clears the screen. -/
def screen (emitted : List String) : List String := emitted.foldl display []

/-- The screen is one that a full redraw of the root could give. -/
def Agrees (r : Renderer) : Prop :=
  ∃ printed, Redraws r.root printed ∧ screen r.terminal.emitted = screen printed

theorem screen_append (first second : List String) :
    screen (first ++ second) = second.foldl display (screen first) := List.foldl_append

theorem screen_congr {first first' : List String} (h : screen first = screen first') (second : List String) :
    screen (first ++ second) = screen (first' ++ second) := by
  rw [screen_append,screen_append,h]

/-- What was printed before a clear is gone. -/
theorem screen_clear (before after : List String) :
    screen (before ++ clearSequence::after) = screen (clearSequence::after) := by
  rw [screen_append,List.foldl_cons]
  rfl

/-! ### What the renderer prints -/

/-- Whenever the action succeeds it prints some strings, and `post` holds of the root
before, the root after and these strings. -/
def Writes (action : RenderM Unit) (post : VNode → VNode → List String → Prop) : Prop :=
  ∀ r r', action r = .ok () r' → ∃ printed, r'.terminal.emitted = r.terminal.emitted ++ printed ∧
    post r.root r'.root printed

variable {first second : RenderM Unit} {post post₁ post₂ : VNode → VNode → List String → Prop}

theorem bind_eq_ok {next : Unit → RenderM Unit} {r r' : Renderer} (h : (first >>= next) r = .ok () r') :
    ∃ r₁, first r = .ok () r₁ ∧ next () r₁ = .ok () r' := by
  cases hfirst : first r with
  | ok u r₁ =>
    rw [bind_ok hfirst] at h
    exact ⟨r₁,rfl,h⟩
  | error e r₁ =>
    rw [bind_error hfirst] at h
    cases h

theorem Writes.mono (h : Writes first post) {post' : VNode → VNode → List String → Prop}
    (hpost : ∀ root root' printed, post root root' printed → post' root root' printed) : Writes first post' := by
  intro r r' hok
  obtain ⟨printed,hemitted,hp⟩ := h r r' hok
  exact ⟨printed,hemitted,hpost _ _ _ hp⟩

theorem Writes.bind (hfirst : Writes first post₁) (hsecond : Writes second post₂)
    (hpost : ∀ root middle root' p q, post₁ root middle p → post₂ middle root' q → post root root' (p ++ q)) :
    Writes (first >>= fun _ => second) post := by
  intro r r' h
  obtain ⟨r₁,hok₁,hok₂⟩ := bind_eq_ok h
  obtain ⟨p,hp,hpost₁⟩ := hfirst r r₁ hok₁
  obtain ⟨q,hq,hpost₂⟩ := hsecond r₁ r' hok₂
  have hemitted : r'.terminal.emitted = r.terminal.emitted ++ (p ++ q) := by
    rw [hq,hp,List.append_assoc]
  exact ⟨p ++ q,hemitted,hpost _ _ _ _ _ hpost₁ hpost₂⟩

/-- The action prints these pieces and leaves the root alone. -/
abbrev Draws (action : RenderM Unit) (drawn : List Piece) : Prop :=
  Writes action fun root root' printed => root' = root ∧ PrintAll drawn printed

theorem Draws.pure : Draws (Pure.pure ()) [] := by
  intro r r' h
  cases h
  exact ⟨[],(List.append_nil _).symm,rfl,.nil⟩

theorem Draws.bind {drawn drawn' : List Piece} (hfirst : Draws first drawn) (hsecond : Draws second drawn') :
    Draws (first >>= fun _ => second) (drawn ++ drawn') := by
  refine Writes.bind hfirst hsecond fun root middle root' p q h₁ h₂ => ?_
  exact ⟨h₂.1.trans h₁.1,List.rel_append h₁.2 h₂.2⟩

theorem print_writes (text : String) :
    Writes (print text) fun root root' printed => root' = root ∧ printed = [text] := by
  intro r r' h
  cases h
  exact ⟨[text],rfl,rfl,rfl⟩

theorem flush_writes : Writes flush fun root root' printed => root' = root ∧ printed = [] := by
  intro r r' h
  cases hfault : r.terminal.faults r.terminal.flushes with
  | none =>
    rw [flush_ok hfault] at h
    cases h
    exact ⟨[],(List.append_nil _).symm,rfl,rfl⟩
  | some e =>
    rw [flush_error hfault] at h
    cases h

/-- A string and the flush after it. -/
theorem printFlush_writes (text : String) : Writes (print text >>= fun _ => flush)
    fun root root' printed => root' = root ∧ printed = [text] := by
  refine (print_writes text).bind flush_writes fun root middle root' p q h₁ h₂ => ?_
  rw [h₁.2,h₂.2]
  exact ⟨h₂.1.trans h₁.1,rfl⟩

theorem clearScreen_writes :
    Writes clearScreen fun root root' printed => root' = root ∧ printed = [clearSequence] :=
  printFlush_writes clearSequence

theorem printFlush_draws {piece : Piece} {text : String} (h : piece.Prints text) :
    Draws (print text >>= fun _ => flush) [piece] := by
  refine (printFlush_writes text).mono fun root root' printed hp => ?_
  rw [hp.2]
  exact ⟨hp.1,.cons h .nil⟩

section Patching

variable (order : HashOrder String String)

theorem foldl_codes (entries : List (String × String)) (codes : String) :
    entries.foldl (fun codes entry => codes ++ styleCode entry.1 entry.2) codes =
      (codesOf entries).foldl (· ++ ·) codes := by
  induction entries generalizing codes with
  | nil => rfl
  | cons entry entries ih =>
    rw [List.foldl_cons,ih]
    by_cases hcode : styleCode entry.1 entry.2 = ""
    · simp [codesOf,hcode]
    · simp [codesOf,hcode]

theorem applyStyles_eq (elem : VElement VNode) :
    applyStyles order elem = (codesOf (order.entries elem.styles)).foldl (· ++ ·) "" := foldl_codes _ _

theorem codesOf_entries (styles : Styles) : (codesOf (order.entries styles) : Multiset String) = styleCodes styles :=
  Multiset.coe_eq_coe.mpr (((order.perm styles).map _).filter _)

mutual
theorem renderNode_draws : ∀ node, Draws (renderNode order node) (pieces node)
  | .text text => printFlush_draws (show (Piece.text text).Prints text from rfl)
  | .element elem => renderElement_draws elem
theorem renderElement_draws : ∀ elem, Draws (renderElement order elem) (elementPieces elem)
  | ⟨tag,props,styles,children⟩ => by
    unfold renderElement elementPieces
    split
    · rw [if_pos rfl]
      cases hcontent : props["content"]? with
      | none => exact Draws.pure
      | some content =>
        refine printFlush_draws ?_
        exact ⟨codesOf (order.entries styles),codesOf_entries order styles,by rw [applyStyles_eq]⟩
    · next htag =>
      rw [if_neg htag]
      exact renderChildren_draws children
theorem renderChildren_draws : ∀ children, Draws (renderChildren order children) (rowPieces children)
  | [] => Draws.pure
  | child::children => (renderNode_draws child).bind (renderChildren_draws children)
end

/-- `render_all` is such a redraw. -/
theorem renderAll_writes : Writes (renderAll order) fun root root' printed =>
    root' = root ∧ Redraws root printed := by
  intro r r' h
  obtain ⟨r₁,hclear,hrender⟩ := bind_eq_ok h
  obtain ⟨p,hp,hroot₁,rfl⟩ := clearScreen_writes r r₁ hclear
  have hnode : renderNode order r₁.root r₁ = .ok () r' := hrender
  obtain ⟨q,hq,hroot₂,hprinted⟩ := renderNode_draws order r₁.root r₁ r' hnode
  rw [hp,List.append_assoc] at hq
  rw [hroot₁] at hroot₂ hprinted
  exact ⟨_,hq,hroot₂,q,rfl,hprinted⟩

/-! ### What a patch prints -/

def propLine (entry : String × String) : String := entry.1 ++ ": " ++ entry.2 ++ "\n"

/-- What a patch prints, where the root after it is given. -/
def PatchInternal.Prints : PatchInternal → VNode → List String → Prop
  | .replace node,_,printed => PrintAll (pieces node) printed
  | .updateProps props,_,printed => ∃ entries : List (String × String),
    entries.Perm props.toList ∧ printed = entries.map propLine
  | .appendChild node,_,printed => PrintAll (pieces node) printed
  | .removeChild _,root,printed => Redraws root printed
  | .updateText text,_,printed => printed = [clearSequence,text]
  | .none,_,printed => printed = []

theorem changeElement_writes (textError : String) (change : VElement VNode → Except String (VElement VNode)) :
    Writes (changeElement textError change) fun root root' printed =>
      changedRoot change root = some root' ∧ printed = [] := by
  rintro ⟨root,t⟩ r' h
  cases root with
  | text text => cases h
  | element elem =>
    cases hc : change elem with
    | error e =>
      rw [changeElement_error hc] at h
      cases h
    | ok changed =>
      rw [changeElement_ok hc] at h
      cases h
      have hchanged : changedRoot change (.element elem) = some (.element changed) := by
        simp [changedRoot,hc,Except.toOption]
      exact ⟨[],(List.append_nil _).symm,hchanged,rfl⟩

theorem setRoot_writes (node : VNode) :
    Writes (setRoot node) fun _ root' printed => root' = node ∧ printed = [] := by
  intro r r' h
  cases h
  exact ⟨[],(List.append_nil _).symm,rfl,rfl⟩

theorem printEntries_writes (entries : List (String × String)) :
    Writes (entries.forM fun entry => print (propLine entry))
      fun root root' printed => root' = root ∧ printed = entries.map propLine := by
  induction entries with
  | nil =>
    intro r r' h
    cases h
    exact ⟨[],(List.append_nil _).symm,rfl,rfl⟩
  | cons entry entries ih =>
    refine (print_writes (propLine entry)).bind ih fun root middle root' p q h₁ h₂ => ?_
    rw [h₁.2,h₂.2]
    exact ⟨h₂.1.trans h₁.1,rfl⟩

theorem updateText_writes (newText : String) : Writes (updateText newText) fun root root' printed =>
    (PatchInternal.updateText newText).onRoot root = some root' ∧ printed = [clearSequence,newText] := by
  intro r r' h
  obtain ⟨r₁,hclear,hrest⟩ := bind_eq_ok h
  obtain ⟨r₂,htext,hchange⟩ := bind_eq_ok hrest
  obtain ⟨p,hp,hroot₁,rfl⟩ := clearScreen_writes r r₁ hclear
  obtain ⟨q,hq,hroot₂,rfl⟩ := printFlush_writes newText r₁ r₂ htext
  obtain ⟨o,ho,hchanged,rfl⟩ := changeElement_writes _ _ r₂ r' hchange
  have hroot : r₂.root = r.root := hroot₂.trans hroot₁
  have hpatched : (PatchInternal.updateText newText).onRoot r.root = some r'.root := by
    rw [onRoot_updateText,← hroot]
    exact hchanged
  have hemitted : r'.terminal.emitted = r.terminal.emitted ++ [clearSequence,newText] := by
    rw [ho,hq,hp,List.append_nil,List.append_assoc]
    rfl
  exact ⟨_,hemitted,hpatched,rfl⟩

theorem updateProps_writes (props : Props) : Writes (updateProps order props) fun root root' printed =>
    (PatchInternal.updateProps props).onRoot root = some root' ∧
      ∃ entries : List (String × String), entries.Perm props.toList ∧ printed = entries.map propLine := by
  intro r r' h
  obtain ⟨r₁,hchange,hrest⟩ := bind_eq_ok h
  obtain ⟨r₂,hlines,hflush⟩ := bind_eq_ok hrest
  obtain ⟨p,hp,hchanged,rfl⟩ := changeElement_writes _ _ r r₁ hchange
  obtain ⟨q,hq,hroot₂,rfl⟩ := printEntries_writes (order.entries props) r₁ r₂ hlines
  obtain ⟨o,ho,hroot₃,rfl⟩ := flush_writes r₂ r' hflush
  have hpatched : (PatchInternal.updateProps props).onRoot r.root = some r'.root := by
    rw [onRoot_updateProps order,hroot₃,hroot₂]
    exact hchanged
  have hemitted : r'.terminal.emitted = r.terminal.emitted ++ (order.entries props).map propLine := by
    rw [ho,hq,hp,List.append_nil,List.append_nil]
  exact ⟨_,hemitted,hpatched,order.entries props,order.perm props,rfl⟩

theorem appendChild_writes (child : VNode) : Writes (appendChild order child) fun root root' printed =>
    (PatchInternal.appendChild child).onRoot root = some root' ∧ PrintAll (pieces child) printed := by
  intro r r' h
  obtain ⟨r₁,hrender,hchange⟩ := bind_eq_ok h
  obtain ⟨p,hp,hroot₁,hprinted⟩ := renderNode_draws order child r r₁ hrender
  obtain ⟨q,hq,hchanged,rfl⟩ := changeElement_writes _ _ r₁ r' hchange
  have hpatched : (PatchInternal.appendChild child).onRoot r.root = some r'.root := by
    rw [onRoot_appendChild,← hroot₁]
    exact hchanged
  rw [hp,List.append_nil] at hq
  exact ⟨p,hq,hpatched,hprinted⟩

theorem removeChild_writes (index : UInt32) : Writes (removeChild order index) fun root root' printed =>
    (PatchInternal.removeChild index).onRoot root = some root' ∧ Redraws root' printed := by
  intro r r' h
  obtain ⟨r₁,hchange,hrest⟩ := bind_eq_ok h
  obtain ⟨p,hp,hchanged,rfl⟩ := changeElement_writes _ _ r r₁ hchange
  have hredraw : renderAll order r₁ = .ok () r' := hrest
  obtain ⟨q,hq,hroot₂,hprinted⟩ := renderAll_writes order r₁ r' hredraw
  have hpatched : (PatchInternal.removeChild index).onRoot r.root = some r'.root := by
    rw [onRoot_removeChild,hroot₂]
    exact hchanged
  rw [hp,List.append_nil] at hq
  rw [← hroot₂] at hprinted
  exact ⟨q,hq,hpatched,hprinted⟩

theorem applyPatch_writes (patch : PatchInternal) : Writes (applyPatch order patch)
    fun root root' printed => patch.onRoot root = some root' ∧ patch.Prints root' printed := by
  cases patch with
  | replace node =>
    refine (setRoot_writes node).bind (renderNode_draws order node) fun root middle root' p q h₁ h₂ => ?_
    rw [h₁.2,h₂.1,h₁.1]
    exact ⟨rfl,h₂.2⟩
  | updateProps props => exact updateProps_writes order props
  | appendChild child => exact appendChild_writes order child
  | removeChild index => exact removeChild_writes order index
  | updateText newText => exact updateText_writes newText
  | none =>
    intro r r' h
    cases h
    exact ⟨[],(List.append_nil _).symm,rfl,rfl⟩

/-- A patch list prints these strings on its way from one root to another. -/
def PrintsFrom : List Patch → VNode → VNode → List String → Prop
  | [],root,root',printed => root' = root ∧ printed = []
  | patch::patches,root,root',printed => ∃ middle p q, printed = p ++ q ∧
    patch.internal.onRoot root = some middle ∧ patch.internal.Prints middle p ∧ PrintsFrom patches middle root' q

theorem applyPatches_writes (patches : List Patch) :
    Writes (applyPatches order patches) (PrintsFrom patches) := by
  induction patches with
  | nil =>
    intro r r' h
    cases h
    exact ⟨[],(List.append_nil _).symm,rfl,rfl⟩
  | cons patch patches ih =>
    refine (applyPatch_writes order patch.internal).bind ih fun root middle root' p q h₁ h₂ => ?_
    exact ⟨middle,p,q,rfl,h₁.1,h₁.2,h₂⟩

end Patching

/-! ### What the walk over two trees shows -/

/-- The root as changed so far, and the pieces that the screen shows. There are none when it
still shows lines of props, which no redraw prints. -/
structure Seen where
  root : VNode
  shown : Option (List Piece)

/-- Changed props and styles leave their lines on the screen, a changed text is shown alone, other
nodes are drawn behind what is there, and every removal draws the whole root again. -/
def screenVisitor : Visitor Option Seen where
  write entries s := (rootVisitor.write entries s.root).map fun root => ⟨root,none⟩
  retype text s := (rootVisitor.retype text s.root).map fun root => ⟨root,some [.text text]⟩
  replace node s := (rootVisitor.replace node s.root).map fun root => ⟨root,s.shown.map (· ++ pieces node)⟩
  append child s := (rootVisitor.append child s.root).map fun root => ⟨root,s.shown.map (· ++ pieces child)⟩
  remove index s := (rootVisitor.remove index s.root).map fun root => ⟨root,some (pieces root)⟩

/-- With the old root on the screen, the walk to the new root ends with the pieces of the new root. -/
def Redrawn (old new : VNode) : Prop :=
  ∃ root, screenVisitor.visit old new ⟨old,some (pieces old)⟩ = some ⟨root,some (pieces new)⟩

/-- The screen is one that clearing it and printing these pieces could give. -/
def Displays (shown : List Piece) (emitted : List String) : Prop :=
  ∃ rest, PrintAll shown rest ∧ screen emitted = screen (clearSequence::rest)

theorem agrees_iff {r : Renderer} : Agrees r ↔ Displays (pieces r.root) r.terminal.emitted := by
  constructor
  · rintro ⟨printed,⟨rest,rfl,hrest⟩,hscreen⟩
    exact ⟨rest,hrest,hscreen⟩
  · rintro ⟨rest,hrest,hscreen⟩
    exact ⟨_,⟨rest,rfl,hrest⟩,hscreen⟩

theorem Displays.append {shown more : List Piece} {emitted printed : List String} (h : Displays shown emitted)
    (hmore : PrintAll more printed) : Displays (shown ++ more) (emitted ++ printed) := by
  obtain ⟨rest,hrest,hscreen⟩ := h
  exact ⟨rest ++ printed,List.rel_append hrest hmore,screen_congr hscreen printed⟩

theorem displays_cleared {shown : List Piece} {rest : List String} (h : PrintAll shown rest) (emitted : List String) :
    Displays shown (emitted ++ clearSequence::rest) := ⟨rest,h,screen_clear emitted rest⟩

/-- The visitor goes on exactly where the root takes the patch. -/
theorem screenVisitor_carry {patch : Patch} {s : Seen} {root : VNode} (h : patch.internal.onRoot s.root = some root) :
    ∃ shown, screenVisitor.carry s patch = some ⟨root,shown⟩ := by
  rw [← rootVisitor_carry] at h
  cases patch with
  | none =>
    cases h
    exact ⟨s.shown,rfl⟩
  | replace node =>
    cases h
    exact ⟨_,rfl⟩
  | _ => exact ⟨_,congrArg (Option.map _) h⟩

/-- One patch: what is displayed stays what is shown. -/
theorem carry_displays {patch : Patch} {s s' : Seen} {emitted printed : List String}
    (h : screenVisitor.carry s patch = some s') (hprints : patch.internal.Prints s'.root printed)
    (hs : ∀ shown, s.shown = some shown → Displays shown emitted) :
    ∀ shown, s'.shown = some shown → Displays shown (emitted ++ printed) := by
  intro shown hshown
  cases patch with
  | replace node =>
    cases h
    obtain ⟨before,hbefore,rfl⟩ := Option.map_eq_some_iff.mp hshown
    exact (hs before hbefore).append hprints
  | updateProps props =>
    obtain ⟨root,-,rfl⟩ := Option.map_eq_some_iff.mp h
    cases hshown
  | appendChild node =>
    obtain ⟨root,-,rfl⟩ := Option.map_eq_some_iff.mp h
    obtain ⟨before,hbefore,rfl⟩ := Option.map_eq_some_iff.mp hshown
    exact (hs before hbefore).append hprints
  | removeChild index =>
    obtain ⟨root,-,rfl⟩ := Option.map_eq_some_iff.mp h
    cases hshown
    obtain ⟨rest,rfl,hrest⟩ : Redraws root printed := hprints
    exact displays_cleared hrest emitted
  | updateText text =>
    obtain ⟨root,-,rfl⟩ := Option.map_eq_some_iff.mp h
    cases hshown
    obtain rfl : printed = [clearSequence,text] := hprints
    have htext : PrintAll [.text text] [text] := .cons (show (Piece.text text).Prints text from rfl) .nil
    exact displays_cleared htext emitted
  | none =>
    cases h
    obtain rfl : printed = [] := hprints
    rw [List.append_nil]
    exact hs shown hshown

/-- All patches that the renderer has printed for, one after another. -/
theorem PrintsFrom.displays {patches : List Patch} {root root' : VNode} {printed emitted : List String}
    (h : PrintsFrom patches root root' printed) (shown : Option (List Piece))
    (hs : ∀ before, shown = some before → Displays before emitted) :
    ∃ after, patches.foldlM screenVisitor.carry ⟨root,shown⟩ = some ⟨root',after⟩ ∧
      ∀ pieces, after = some pieces → Displays pieces (emitted ++ printed) := by
  induction patches generalizing root printed emitted shown with
  | nil =>
    obtain ⟨rfl,rfl⟩ := h
    rw [List.append_nil]
    exact ⟨shown,rfl,hs⟩
  | cons patch patches ih =>
    obtain ⟨middle,p,q,rfl,hroot,hp,hrest⟩ := h
    obtain ⟨next,hcarry⟩ := screenVisitor_carry (s := ⟨root,shown⟩) hroot
    obtain ⟨after,hafter,hdisplays⟩ := ih hrest _ (carry_displays hcarry hp hs)
    rw [List.append_assoc] at hdisplays
    exact ⟨after,by rw [List.foldlM_cons,hcarry]; exact hafter,hdisplays⟩

theorem render_writes (order : HashOrder String String) (newRoot : VNode) {r r' : Renderer}
    (h : render order newRoot r = .ok () r') : r'.root = newRoot ∧ ∃ printed root',
      r'.terminal.emitted = r.terminal.emitted ++ printed ∧ PrintsFrom (diff r.root newRoot) r.root root' printed := by
  have hbody : (applyPatches order (diff r.root newRoot) >>= fun _ => setRoot newRoot) r = .ok () r' := h
  obtain ⟨r₁,hpatches,hset⟩ := bind_eq_ok hbody
  obtain ⟨p,hp,hprints⟩ := applyPatches_writes order (diff r.root newRoot) r r₁ hpatches
  obtain ⟨q,hq,hroot,rfl⟩ := setRoot_writes newRoot r₁ r' hset
  rw [hp,List.append_nil] at hq
  exact ⟨hroot,p,r₁.root,hq,hprints⟩

/-- One call of `render` keeps the agreement. -/
theorem render_agrees {order : HashOrder String String} {newRoot : VNode} {r r' : Renderer}
    (hagrees : Agrees r) (hredrawn : Redrawn r.root newRoot) (h : render order newRoot r = .ok () r') :
    Agrees r' := by
  obtain ⟨hroot,printed,root',hemitted,hprints⟩ := render_writes order newRoot h
  obtain ⟨after,hafter,hdisplays⟩ := hprints.displays (some (pieces r.root))
    fun before hbefore => Option.some.inj hbefore ▸ agrees_iff.mp hagrees
  obtain ⟨root,hwalk⟩ := hredrawn
  rw [screenVisitor.carry_diff,hwalk] at hafter
  cases hafter
  rw [agrees_iff,hroot,hemitted]
  exact hdisplays _ rfl

theorem renderAll_agrees {order : HashOrder String String} {r r' : Renderer}
    (h : renderAll order r = .ok () r') : Agrees r' := by
  obtain ⟨printed,hemitted,hroot,rest,rfl,hrest⟩ := renderAll_writes order r r' h
  rw [agrees_iff,hemitted,hroot]
  exact displays_cleared hrest _

/-! ### Runs -/

/-- Successful calls of `render`, one after another. -/
inductive Renders : Renderer → List (HashOrder String String × VNode) → List Renderer → Prop
  | nil (r : Renderer) : Renders r [] []
  | cons {r r' : Renderer} {calls : List (HashOrder String String × VNode)} {states : List Renderer}
      {order : HashOrder String String} {newRoot : VNode} (hrender : render order newRoot r = .ok () r')
      (hcalls : Renders r' calls states) : Renders r ((order,newRoot)::calls) (r'::states)

/-- When every call meets the condition every state agrees. -/
theorem renders_agree {r : Renderer} {calls : List (HashOrder String String × VNode)} {states : List Renderer}
    (h : Renders r calls states) (hagrees : Agrees r) (hredrawn : List.IsChain Redrawn (r.root::calls.map Prod.snd)) :
    ∀ s ∈ r::states, Agrees s := by
  induction h with
  | nil r => simpa using hagrees
  | @cons r r' calls states order newRoot hrender hcalls ih =>
    obtain ⟨hfirst,hrest⟩ := List.isChain_cons_cons.mp hredrawn
    have hnext := render_agrees hagrees hfirst hrender
    rw [← (render_writes order newRoot hrender).1] at hrest
    exact List.forall_mem_cons.mpr ⟨hagrees,ih hnext hrest⟩

/-! ### Steps that meet the condition -/

theorem rowPieces_append (children children' : List VNode) :
    rowPieces (children ++ children') = rowPieces children ++ rowPieces children' := by
  induction children with
  | nil => rfl
  | cons child children ih => rw [List.cons_append,rowPieces,rowPieces,ih,List.append_assoc]

theorem pieces_row {tag : String} (htag : tag ≠ "text") (props : Props) (styles : Styles)
    (children : List VNode) : pieces (.element ⟨tag,props,styles,children⟩) = rowPieces children := by
  rw [pieces,elementPieces,if_neg htag]

/-- Nothing is changed. -/
theorem redrawn_self (node : VNode) : Redrawn node node := ⟨node,screenVisitor.visit_self node _⟩

theorem screenVisitor_appendAll (more : List VNode) (elem : VElement VNode) (shown : List Piece) :
    screenVisitor.appendAll more ⟨.element elem,some shown⟩ =
      some ⟨.element { elem with children := elem.children ++ more },some (shown ++ rowPieces more)⟩ := by
  induction more generalizing elem shown with
  | nil => simp [Visitor.appendAll,rowPieces]
  | cons child more ih =>
    have hnext := ih { elem with children := elem.children ++ [child] } (shown ++ pieces child)
    simp only [List.append_assoc,List.singleton_append] at hnext
    rw [rowPieces]
    exact hnext

/-- Children are added behind the last one. -/
theorem redrawn_append {tag : String} (htag : tag ≠ "text") (props : Props) (styles : Styles)
    (children more : List VNode) :
    Redrawn (.element ⟨tag,props,styles,children⟩) (.element ⟨tag,props,styles,children ++ more⟩) := by
  have hrow (s : Seen) : screenVisitor.visitRow 0 children (children ++ more) s = screenVisitor.appendAll more s := by
    have hcommon := screenVisitor.visitRow_common children [] more 0 s
    rw [List.append_nil] at hcommon
    rw [hcommon]
    rfl
  refine ⟨.element ⟨tag,props,styles,children ++ more⟩,?_⟩
  rw [pieces_row htag,pieces_row htag,rowPieces_append]
  simp only [Visitor.visit,if_true,written_self,Visitor.writes,ExtTreeMap.isEmpty_empty,pure_bind,hrow]
  exact screenVisitor_appendAll more ⟨tag,props,styles,children⟩ (rowPieces children)

/-- A block of children is removed from the end of the row, and the last removal draws the rest. -/
theorem screenVisitor_removeFrom (front rest : List VNode) (elem : VElement VNode) (shown : Option (List Piece))
    (hchildren : elem.children = front ++ rest) (hlength : front.length+rest.length ≤ 2^32) :
    ∃ after, screenVisitor.removeFrom front.length rest ⟨.element elem,shown⟩ =
        some ⟨.element { elem with children := front },after⟩ ∧
      (rest ≠ [] → after = some (pieces (.element { elem with children := front }))) := by
  induction rest generalizing front with
  | nil =>
    rw [List.append_nil] at hchildren
    subst hchildren
    exact ⟨shown,rfl,fun h => absurd rfl h⟩
  | cons child rest ih =>
    rw [List.length_cons] at hlength
    obtain ⟨before,hbefore,-⟩ := ih (front ++ [child]) (by simpa using hchildren) (by simp; omega)
    have hindex : front.length.toUInt32.toNat = front.length := by
      rw [Nat.toUInt32,UInt32.toNat_ofNat_of_lt']
      rw [UInt32.size]
      omega
    have hremove : removeAt front.length (front ++ [child]) = some front := by
      unfold removeAt
      rw [hindex,if_pos (by simp)]
      simp [List.eraseIdx_append_of_length_le]
    rw [List.length_append,List.length_singleton] at hbefore
    refine ⟨some (pieces (.element { elem with children := front })),?_,fun _ => rfl⟩
    rw [Visitor.removeFrom,hbefore]
    simp only [screenVisitor,rootVisitor,VNode.changed,hremove,Option.map_some,Option.bind_eq_bind,Option.bind_some]

theorem screenVisitor_writes (entries : Props) (elem : VElement VNode) (shown : Option (List Piece)) :
    ∃ props after, screenVisitor.writes entries ⟨.element elem,shown⟩ =
      some ⟨.element { elem with props := props },after⟩ := by
  unfold Visitor.writes
  split
  · exact ⟨elem.props,shown,rfl⟩
  · exact ⟨_,none,rfl⟩

/-- Children are removed from the end of the row, whatever else changes at the root: the last
removal draws it again. -/
theorem redrawn_remove {tag : String} (htag : tag ≠ "text") (oldProps newProps : Props)
    (oldStyles newStyles : Styles) (children : List VNode) {rest : List VNode} (hrest : rest ≠ [])
    (hlength : children.length+rest.length ≤ 2^32) :
    Redrawn (.element ⟨tag,oldProps,oldStyles,children ++ rest⟩)
      (.element ⟨tag,newProps,newStyles,children⟩) := by
  have hrow (s : Seen) : screenVisitor.visitRow 0 (children ++ rest) children s =
      screenVisitor.removeFrom children.length rest s := by
    have hcommon := screenVisitor.visitRow_common children rest [] 0 s
    rw [List.append_nil,Nat.zero_add] at hcommon
    rw [hcommon]
    cases rest with
    | nil => exact absurd rfl hrest
    | cons child rest => rfl
  obtain ⟨props,shown,hprops⟩ := screenVisitor_writes (written oldProps newProps)
    ⟨tag,oldProps,oldStyles,children ++ rest⟩ (some (pieces (.element ⟨tag,oldProps,oldStyles,children ++ rest⟩)))
  obtain ⟨props',shown',hstyles⟩ := screenVisitor_writes (written oldStyles newStyles)
    ⟨tag,props,oldStyles,children ++ rest⟩ shown
  obtain ⟨after,hremove,hafter⟩ := screenVisitor_removeFrom children rest
    ⟨tag,props',oldStyles,children ++ rest⟩ shown' rfl hlength
  rw [hafter hrest] at hremove
  refine ⟨.element ⟨tag,props',oldStyles,children⟩,?_⟩
  rw [Visitor.visit,if_pos rfl,hprops,Option.bind_eq_bind,Option.bind_some,hstyles,Option.bind_some,hrow,hremove,
    pieces_row htag,pieces_row htag]

end VirtualDom
end NodeRustPty
