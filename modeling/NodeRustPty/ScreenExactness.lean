import NodeRustPty.ScreenAgreement

/-! Where the texts hold no control characters the strings on the screen tell what was
drawn, and the condition under which `render` agrees with a redraw is exact. -/
namespace NodeRustPty
namespace VirtualDom

open Std

/-! ### Texts without control characters -/

/-- No escape sequence and no line break. -/
def Plain (text : String) : Prop := '\x1b' ∉ text.toList ∧ '\n' ∉ text.toList

def PlainContent (props : Props) : Prop := ∀ text, props["content"]? = some text → Plain text

mutual
/-- All texts that the tree could show are plain. -/
def Legible : VNode → Prop
  | .text text => Plain text
  | .element ⟨_,props,styles,children⟩ => PlainContent props ∧ PlainContent styles ∧ LegibleRow children
def LegibleRow : List VNode → Prop
  | [] => True
  | child::children => Legible child ∧ LegibleRow children
end

theorem legibleRow_iff (children : List VNode) : LegibleRow children ↔ ∀ child ∈ children, Legible child := by
  induction children with
  | nil => simp [LegibleRow]
  | cons child children ih => simp [LegibleRow,ih]

theorem plain_empty : Plain "" := by
  unfold Plain
  decide

theorem plainContent_diffProps {oldProps newProps : Props} (h : PlainContent newProps) :
    PlainContent (diffProps oldProps newProps) := by
  intro text htext
  rw [getElem?_diffProps] at htext
  cases hnew : newProps["content"]? with
  | some value =>
    simp only [hnew] at htext
    split at htext
    · cases htext
    · cases htext
      exact h text hnew
  | none =>
    simp only [hnew] at htext
    obtain ⟨-,-,rfl⟩ := Option.map_eq_some_iff.mp htext
    exact plain_empty

theorem plainContent_union {props updates : Props} (h : PlainContent props) (hupdates : PlainContent updates) :
    PlainContent (props ∪ updates) := by
  intro text htext
  rw [ExtTreeMap.getElem?_union] at htext
  cases hu : updates["content"]? with
  | some value =>
    rw [hu] at htext
    cases htext
    exact hupdates text hu
  | none =>
    rw [hu] at htext
    exact h text htext

theorem plainContent_insert {props : Props} {text : String} (h : Plain text) :
    PlainContent (props.insert "content" text) := by
  intro other hother
  rw [ExtTreeMap.getElem?_insert_self] at hother
  cases hother
  exact h

/-! ### Patches between such trees -/

/-- The patch writes something, and only plain texts. -/
def Patch.Legible : Patch → Prop
  | .replace node => VirtualDom.Legible node
  | .updateProps props => props ≠ ∅ ∧ PlainContent props
  | .appendChild node => VirtualDom.Legible node
  | .updateText text => Plain text
  | .removeChild _ => True
  | .none => True

theorem propsPatch_legible {props : Props} (h : PlainContent props) :
    ∀ patch ∈ propsPatch props, patch.Legible := by
  intro patch hpatch
  unfold propsPatch at hpatch
  split at hpatch
  · cases hpatch
  · next hne =>
    rw [List.mem_singleton] at hpatch
    rw [hpatch]
    refine ⟨fun hempty => hne ?_,h⟩
    rw [hempty]
    rfl

theorem diffTail_legible (i : ℕ) (oldRest : List VNode) {newRest : List VNode} (h : LegibleRow newRest) :
    ∀ patch ∈ diffTail i oldRest newRest, patch.Legible := by
  intro patch hpatch
  rcases List.mem_append.mp hpatch with happend | hremove
  · obtain ⟨child,hchild,rfl⟩ := List.mem_map.mp happend
    exact (legibleRow_iff newRest).mp h child hchild
  · obtain ⟨index,-,rfl⟩ := List.mem_map.mp hremove
    trivial

theorem mem_dropNone {patch : Patch} {patches : List Patch} (h : patch ∈ dropNone patches) : patch ∈ patches := by
  unfold dropNone at h
  split at h
  · exact (List.mem_filter.mp h).1
  · exact h

theorem legible_of_mem {patch patch' : Patch} (h : patch'.Legible) (hmem : patch ∈ [patch']) : patch.Legible := by
  rw [List.mem_singleton.mp hmem]
  exact h

mutual
theorem diff_legible : ∀ old new : VNode, Legible new → ∀ patch ∈ diff old new, patch.Legible
  | .text old, .text new, h, patch, hpatch => by
    by_cases he : old = new
    · simp only [diff,he,if_true] at hpatch
      exact legible_of_mem (show Patch.none.Legible from trivial) hpatch
    · simp only [diff,VNode.text.injEq,he,if_false,ne_eq,not_false_eq_true,if_true] at hpatch
      exact legible_of_mem (show (Patch.updateText new).Legible from h) (mem_dropNone hpatch)
  | .element ⟨oldTag,oldProps,oldStyles,oldChildren⟩,
    .element ⟨newTag,newProps,newStyles,newChildren⟩, h, patch, hpatch => by
    by_cases he : VNode.element ⟨oldTag,oldProps,oldStyles,oldChildren⟩ =
        .element ⟨newTag,newProps,newStyles,newChildren⟩
    · rw [diff,if_pos he] at hpatch
      exact legible_of_mem (show Patch.none.Legible from trivial) hpatch
    rw [diff,if_neg he] at hpatch
    have hmem := mem_dropNone hpatch
    by_cases htag : oldTag = newTag
    · simp only [htag,ne_eq,not_true_eq_false,if_false] at hmem
      rcases List.mem_append.mp hmem with hupdates | hchildren
      · rcases List.mem_append.mp hupdates with hprops | hstyles
        · exact propsPatch_legible (plainContent_diffProps h.1) patch hprops
        · exact propsPatch_legible (plainContent_diffProps h.2.1) patch hstyles
      · exact diffChildren_legible 0 oldChildren newChildren h.2.2 patch hchildren
    · simp only [ne_eq,htag,not_false_eq_true,if_true] at hmem
      have hreplace : (Patch.replace (.element ⟨newTag,newProps,newStyles,newChildren⟩)).Legible := h
      exact legible_of_mem hreplace hmem
  | .text old, .element new, h, patch, hpatch => by
    simp only [diff,reduceCtorEq,if_false] at hpatch
    exact legible_of_mem (show (Patch.replace (.element new)).Legible from h) (mem_dropNone hpatch)
  | .element old, .text new, h, patch, hpatch => by
    simp only [diff,reduceCtorEq,if_false] at hpatch
    exact legible_of_mem (show (Patch.replace (.text new)).Legible from h) (mem_dropNone hpatch)
theorem diffChildren_legible : ∀ (i : ℕ) (oldRow newRow : List VNode), LegibleRow newRow →
    ∀ patch ∈ diffChildren i oldRow newRow, patch.Legible
  | i, old::oldRest, new::newRest, h, patch, hpatch => by
    rw [diffChildren] at hpatch
    rcases List.mem_append.mp hpatch with hhead | hrest
    · split at hhead
      · exact diff_legible old new h.1 patch hhead
      · cases hhead
    · exact diffChildren_legible (i+1) oldRest newRest h.2 patch hrest
  | i, [], newRest, h, patch, hpatch => by
    rw [diffChildren] at hpatch
    exact diffTail_legible i [] h patch hpatch
  | i, old::oldRest, [], h, patch, hpatch => by
    simp only [diffChildren] at hpatch
    exact diffTail_legible i (old::oldRest) h patch hpatch
end

/-- A patch keeps the root legible. -/
theorem onRoot_legible {patch : Patch} {root root' : VNode} (hpatch : patch.Legible) (hroot : Legible root)
    (h : patch.internal.onRoot root = some root') : Legible root' := by
  cases patch with
  | replace node =>
    cases h
    exact hpatch
  | none =>
    cases h
    exact hroot
  | updateProps props =>
    cases root with
    | text text => cases h
    | element elem =>
      cases h
      exact ⟨plainContent_union hroot.1 hpatch.2,hroot.2⟩
  | updateText text =>
    cases root with
    | text text => cases h
    | element elem =>
      cases h
      exact ⟨plainContent_insert hpatch,hroot.2⟩
  | appendChild child =>
    cases root with
    | text text => cases h
    | element elem =>
      cases h
      refine ⟨hroot.1,hroot.2.1,(legibleRow_iff _).mpr fun other hother => ?_⟩
      rcases List.mem_append.mp hother with hother | hother
      · exact (legibleRow_iff _).mp hroot.2.2 other hother
      · rw [List.mem_singleton.mp hother]
        exact hpatch
  | removeChild index =>
    cases root with
    | text text => cases h
    | element elem =>
      rw [removeChild_onRoot] at h
      obtain ⟨row,hrow,rfl⟩ := Option.map_eq_some_iff.mp h
      unfold removeAt at hrow
      split at hrow
      · cases hrow
        refine ⟨hroot.1,hroot.2.1,(legibleRow_iff _).mpr fun other hother => ?_⟩
        exact (legibleRow_iff _).mp hroot.2.2 other (List.mem_of_mem_eraseIdx hother)
      · cases hrow

/-! ### Strings tell pieces apart -/

/-- An escape sequence that ends with its first `m`. -/
def IsCode (code : String) : Prop :=
  ∃ body : List Char, code.toList = '\x1b'::body ++ ['m'] ∧ 'm' ∉ body ∧ '\n' ∉ body

def Piece.Plain : Piece → Prop
  | .text content => VirtualDom.Plain content
  | .styled codes content => VirtualDom.Plain content ∧ ∀ code ∈ codes, IsCode code

theorem isCode_of_number {number : String} (h : 'm' ∉ number.toList ∧ '\n' ∉ number.toList) :
    IsCode ("\x1b[" ++ number ++ "m") := by
  refine ⟨'['::number.toList,by simp [String.toList_append],?_,?_⟩
  · simpa using h.1
  · simpa using h.2

theorem isCode_color (value : String) : IsCode ("\x1b[" ++ colorCode value ++ "m") := by
  apply isCode_of_number
  unfold colorCode
  split <;> decide

theorem isCode_background (value : String) : IsCode ("\x1b[" ++ backgroundCode value ++ "m") := by
  apply isCode_of_number
  unfold backgroundCode
  split <;> decide

/-- Every style has such a code or none. -/
theorem isCode_styleCode (key value : String) : styleCode key value = "" ∨ IsCode (styleCode key value) := by
  have hswitch (code : String) (h : IsCode code) :
      (if value = "true" then code else "") = "" ∨ IsCode (if value = "true" then code else "") := by
    by_cases hvalue : value = "true"
    · rw [if_pos hvalue]
      exact .inr h
    · exact .inl (if_neg hvalue)
  unfold styleCode
  split
  · exact .inr (isCode_color value)
  · exact .inr (isCode_background value)
  · exact hswitch _ (isCode_of_number (show 'm' ∉ "1".toList ∧ '\n' ∉ "1".toList by decide))
  · exact hswitch _ (isCode_of_number (show 'm' ∉ "4".toList ∧ '\n' ∉ "4".toList by decide))
  · exact hswitch _ (isCode_of_number (show 'm' ∉ "3".toList ∧ '\n' ∉ "3".toList by decide))
  · exact hswitch _ (isCode_of_number (show 'm' ∉ "9".toList ∧ '\n' ∉ "9".toList by decide))
  · exact .inl rfl

theorem isCode_of_mem_styleCodes {styles : Styles} {code : String} (h : code ∈ styleCodes styles) :
    IsCode code := by
  have hmem : code ∈ codesOf styles.toList := h
  obtain ⟨hmap,hne⟩ := List.mem_filter.mp hmem
  obtain ⟨entry,-,rfl⟩ := List.mem_map.mp hmap
  exact (isCode_styleCode entry.1 entry.2).resolve_left (by simpa using hne)

mutual
theorem pieces_plain : ∀ node, Legible node → ∀ piece ∈ pieces node, piece.Plain
  | .text text, h, piece, hpiece => by
    rw [pieces,List.mem_singleton] at hpiece
    rw [hpiece]
    exact h
  | .element ⟨tag,props,styles,children⟩, h, piece, hpiece => by
    rw [pieces,elementPieces] at hpiece
    split at hpiece
    · obtain ⟨content,hcontent,rfl⟩ := Option.map_eq_some_iff.mp (Option.mem_toList.mp hpiece)
      exact ⟨h.1 content hcontent,fun code hcode => isCode_of_mem_styleCodes hcode⟩
    · exact rowPieces_plain children h.2.2 piece hpiece
theorem rowPieces_plain : ∀ children, LegibleRow children → ∀ piece ∈ rowPieces children, piece.Plain
  | [], _, piece, hpiece => by cases hpiece
  | child::children, h, piece, hpiece => by
    rw [rowPieces] at hpiece
    rcases List.mem_append.mp hpiece with hchild | hrest
    · exact pieces_plain child h.1 piece hchild
    · exact rowPieces_plain children h.2 piece hrest
end

theorem toList_foldl (ordered : List String) (start : String) :
    (ordered.foldl (· ++ ·) start).toList = start.toList ++ ordered.flatMap String.toList := by
  induction ordered generalizing start with
  | nil => simp
  | cons code ordered ih => rw [List.foldl_cons,ih,String.toList_append,List.flatMap_cons,List.append_assoc]

/-- The characters of a text element. -/
theorem toList_styled (ordered : List String) (content : String) :
    (ordered.foldl (· ++ ·) "" ++ content ++ "\x1b[0m").toList =
      ordered.flatMap String.toList ++ (content.toList ++ ['\x1b','[','0','m']) := by
  rw [String.toList_append,String.toList_append,toList_foldl,List.append_assoc]
  rfl

/-- No piece breaks the line or clears the screen. -/
theorem Piece.Plain.printed {piece : Piece} {printed : String} (h : piece.Plain) (hprints : piece.Prints printed) :
    '\n' ∉ printed.toList ∧ printed ≠ clearSequence := by
  cases piece with
  | text content =>
    obtain rfl : printed = content := hprints
    refine ⟨h.2,fun hclear => h.1 ?_⟩
    rw [hclear]
    decide
  | styled codes content =>
    obtain ⟨ordered,hordered,rfl⟩ := hprints
    constructor
    · rw [toList_styled,List.mem_append,List.mem_append,not_or,not_or]
      refine ⟨fun hcode => ?_,h.1.2,by decide⟩
      obtain ⟨code,hmem,hbreak⟩ := List.mem_flatMap.mp hcode
      obtain ⟨body,hbody,-,hplain⟩ := h.2 code (by rw [← hordered]; exact hmem)
      rw [hbody] at hbreak
      simp [hplain] at hbreak
    · intro hclear
      have hlast := congrArg (fun text : String => text.toList.getLast?) hclear
      simp only [toList_styled] at hlast
      rw [← List.append_assoc,List.getLast?_append] at hlast
      have hend : some 'm' = clearSequence.toList.getLast? := hlast
      revert hend
      decide

/-- A content starts with no escape. -/
theorem content_ne_code {content code : String} {rest : List Char} (hcontent : Plain content)
    (hcode : IsCode code) : content.toList ++ ['\x1b','[','0','m'] ≠
      code.toList ++ (rest ++ ['\x1b','[','0','m']) := by
  obtain ⟨body,hbody,-,-⟩ := hcode
  intro h
  rw [hbody] at h
  cases hchars : content.toList with
  | nil =>
    rw [hchars] at h
    have hlength := congrArg List.length h
    simp only [List.length_append,List.length_cons,List.length_nil] at hlength
    omega
  | cons c chars =>
    rw [hchars,List.cons_append,List.cons_append,List.cons_append] at h
    obtain ⟨rfl,-⟩ := List.cons.inj h
    apply hcontent.1
    rw [hchars]
    exact List.mem_cons_self

/-- Two lists are cut before the first occurrence of an element in the same way. -/
theorem first_inj {α : Type} {a : α} {front front' rest rest' : List α} (hfront : a ∉ front)
    (hfront' : a ∉ front') (h : front ++ a::rest = front' ++ a::rest') : front = front' ∧ rest = rest' := by
  rcases List.append_eq_append_iff.mp h with ⟨between,rfl,hrest⟩ | ⟨between,rfl,hrest⟩
  · cases between with
    | nil => exact ⟨(List.append_nil _).symm,(List.cons.inj hrest).2⟩
    | cons b between =>
      obtain ⟨rfl,-⟩ := List.cons.inj hrest
      simp at hfront'
  · cases between with
    | nil => exact ⟨List.append_nil _,(List.cons.inj hrest).2.symm⟩
    | cons b between =>
      obtain ⟨rfl,-⟩ := List.cons.inj hrest
      simp at hfront

/-- Of two codes in front of the same characters each ends with its first `m`. -/
theorem code_inj {code code' : String} {rest rest' : List Char} (hcode : IsCode code) (hcode' : IsCode code')
    (h : code.toList ++ rest = code'.toList ++ rest') : code = code' ∧ rest = rest' := by
  obtain ⟨body,hbody,hm,-⟩ := hcode
  obtain ⟨body',hbody',hm',-⟩ := hcode'
  have hsplit : '\x1b'::body ++ 'm'::rest = '\x1b'::body' ++ 'm'::rest' := by
    rw [hbody,hbody',List.append_assoc,List.append_assoc] at h
    exact h
  have hnot : 'm' ∉ '\x1b'::body := by
    rw [List.mem_cons,not_or]
    exact ⟨by decide,hm⟩
  have hnot' : 'm' ∉ '\x1b'::body' := by
    rw [List.mem_cons,not_or]
    exact ⟨by decide,hm'⟩
  obtain ⟨hfront,hrest⟩ := first_inj hnot hnot' hsplit
  refine ⟨String.toList_inj.mp ?_,hrest⟩
  rw [hbody,hbody',hfront]

/-- The codes of two text elements with the same characters are the same, and so are the
contents. -/
theorem styled_inj {ordered ordered' : List String} {content content' : String}
    (hcodes : ∀ code ∈ ordered, IsCode code) (hcodes' : ∀ code ∈ ordered', IsCode code)
    (hcontent : Plain content) (hcontent' : Plain content')
    (h : ordered.flatMap String.toList ++ (content.toList ++ ['\x1b','[','0','m']) =
      ordered'.flatMap String.toList ++ (content'.toList ++ ['\x1b','[','0','m'])) :
    ordered = ordered' ∧ content = content' := by
  induction ordered generalizing ordered' with
  | nil =>
    cases ordered' with
    | nil => exact ⟨rfl,String.toList_inj.mp (List.append_cancel_right h)⟩
    | cons code ordered' =>
      rw [List.flatMap_nil,List.nil_append,List.flatMap_cons,List.append_assoc,
        ← List.append_assoc (ordered'.flatMap String.toList)] at h
      exact absurd h (content_ne_code hcontent (hcodes' code List.mem_cons_self))
  | cons code ordered ih =>
    cases ordered' with
    | nil =>
      rw [List.flatMap_nil,List.nil_append,List.flatMap_cons,List.append_assoc,
        ← List.append_assoc (ordered.flatMap String.toList)] at h
      exact absurd h.symm (content_ne_code hcontent' (hcodes code List.mem_cons_self))
    | cons code' ordered' =>
      rw [List.flatMap_cons,List.flatMap_cons,List.append_assoc,List.append_assoc] at h
      obtain ⟨rfl,hrest⟩ := code_inj (hcodes code List.mem_cons_self) (hcodes' code' List.mem_cons_self) h
      obtain ⟨rfl,hsame⟩ := ih (fun other hother => hcodes other (List.mem_cons_of_mem _ hother))
        (fun other hother => hcodes' other (List.mem_cons_of_mem _ hother)) hrest
      exact ⟨rfl,hsame⟩

theorem text_ne_styled {text content : String} {ordered : List String} (htext : Plain text) :
    text ≠ ordered.foldl (· ++ ·) "" ++ content ++ "\x1b[0m" := by
  intro h
  apply htext.1
  rw [h,toList_styled]
  simp

/-- Two pieces that can be printed as the same string are the same. -/
theorem Piece.Plain.eq {piece piece' : Piece} {printed : String} (h : piece.Plain) (h' : piece'.Plain)
    (hprints : piece.Prints printed) (hprints' : piece'.Prints printed) : piece = piece' := by
  cases piece with
  | text content =>
    obtain rfl : printed = content := hprints
    cases piece' with
    | text content' =>
      obtain rfl : printed = content' := hprints'
      rfl
    | styled codes' content' =>
      obtain ⟨ordered',-,hprinted⟩ := hprints'
      exact absurd hprinted (text_ne_styled h)
  | styled codes content =>
    obtain ⟨ordered,rfl,rfl⟩ := hprints
    cases piece' with
    | text content' =>
      have hprinted : _ = content' := hprints'
      exact absurd hprinted.symm (text_ne_styled h')
    | styled codes' content' =>
      obtain ⟨ordered',rfl,hprinted⟩ := hprints'
      have hchars := congrArg String.toList hprinted
      rw [toList_styled,toList_styled] at hchars
      obtain ⟨rfl,rfl⟩ := styled_inj h.2 h'.2 h.1 h'.1 hchars
      rfl

theorem printAll_inj {drawn drawn' : List Piece} {printed : List String} (h : ∀ piece ∈ drawn, piece.Plain)
    (h' : ∀ piece ∈ drawn', piece.Plain) (hprints : PrintAll drawn printed) (hprints' : PrintAll drawn' printed) :
    drawn = drawn' := by
  induction hprints generalizing drawn' with
  | nil => exact (List.forall₂_nil_right_iff.mp hprints').symm
  | cons hfirst hrest ih =>
    obtain ⟨piece',rest',hfirst',hrest',rfl⟩ := List.forall₂_cons_right_iff.mp hprints'
    have hpiece := (h _ List.mem_cons_self).eq (h' piece' List.mem_cons_self) hfirst hfirst'
    have htail := ih (fun other hother => h other (List.mem_cons_of_mem _ hother))
      (fun other hother => h' other (List.mem_cons_of_mem _ hother)) hrest'
    rw [hpiece,htail]

theorem printAll_printed {drawn : List Piece} {printed : List String} (h : ∀ piece ∈ drawn, piece.Plain)
    (hprints : PrintAll drawn printed) : ∀ text ∈ printed, '\n' ∉ text.toList ∧ text ≠ clearSequence := by
  induction hprints with
  | nil => exact fun text htext => absurd htext List.not_mem_nil
  | cons hfirst hrest ih =>
    intro text htext
    rcases List.mem_cons.mp htext with rfl | htext
    · exact (h _ List.mem_cons_self).printed hfirst
    · exact ih (fun other hother => h other (List.mem_cons_of_mem _ hother)) text htext

/-! ### What a step leaves on the screen -/

theorem foldl_display (shown : List String) {printed : List String} (h : ∀ text ∈ printed, text ≠ clearSequence) :
    printed.foldl display shown = shown ++ printed := by
  induction printed generalizing shown with
  | nil => exact (List.append_nil _).symm
  | cons text printed ih =>
    have hstep : display shown text = shown ++ [text] := if_neg (h text List.mem_cons_self)
    rw [List.foldl_cons,hstep,ih _ fun other hother => h other (List.mem_cons_of_mem _ hother),
      List.append_assoc,List.singleton_append]

/-- What is printed after a clear stays. -/
theorem screen_after_clear (before : List String) {printed : List String}
    (h : ∀ text ∈ printed, text ≠ clearSequence) : screen (before ++ clearSequence::printed) = printed := by
  rw [screen_clear]
  exact foldl_display [] h

theorem propLine_break (entry : String × String) : '\n' ∈ (propLine entry).toList := by
  rw [propLine,String.toList_append]
  exact List.mem_append_right _ (by decide)

theorem ne_clear_of_break {text : String} (h : '\n' ∈ text.toList) : text ≠ clearSequence := by
  rintro rfl
  revert h
  decide

/-! ### What the screen tells of the walk -/

/-- The pieces that are shown can be read off the screen, and a line of props breaks it. -/
structure Told (s : Seen) (emitted : List String) : Prop where
  root : Legible s.root
  shown : ∀ shown, s.shown = some shown → (∀ piece ∈ shown, piece.Plain) ∧ PrintAll shown (screen emitted)
  broken : s.shown = none → ∃ text ∈ screen emitted, '\n' ∈ text.toList

/-- A node that is drawn behind what is shown. -/
theorem Told.draw {s : Seen} {emitted printed : List String} (h : Told s emitted) {node root : VNode}
    (hroot : Legible root) (hnode : Legible node) (hprints : PrintAll (pieces node) printed) :
    Told ⟨root,s.shown.map (· ++ pieces node)⟩ (emitted ++ printed) := by
  have hplain := pieces_plain node hnode
  have hscreen : screen (emitted ++ printed) = screen emitted ++ printed := by
    rw [screen_append,foldl_display _ fun text htext => (printAll_printed hplain hprints text htext).2]
  refine ⟨hroot,fun shown hshown => ?_,fun hnone => ?_⟩
  · obtain ⟨before,hbefore,rfl⟩ := Option.map_eq_some_iff.mp hshown
    obtain ⟨hpieces,hall⟩ := h.shown before hbefore
    rw [hscreen]
    exact ⟨List.forall_mem_append.mpr ⟨hpieces,hplain⟩,List.rel_append hall hprints⟩
  · obtain ⟨text,htext,hbreak⟩ := h.broken (Option.map_eq_none_iff.mp hnone)
    rw [hscreen]
    exact ⟨text,List.mem_append_left _ htext,hbreak⟩

/-- Pieces behind a cleared screen. -/
theorem told_cleared {root : VNode} {shown : List Piece} {rest : List String} (hroot : Legible root)
    (hplain : ∀ piece ∈ shown, piece.Plain) (hprints : PrintAll shown rest) (emitted : List String) :
    Told ⟨root,some shown⟩ (emitted ++ clearSequence::rest) := by
  refine ⟨hroot,fun shown' hshown => ?_,fun hnone => ?_⟩
  · cases hshown
    rw [screen_after_clear _ fun text htext => (printAll_printed hplain hprints text htext).2]
    exact ⟨hplain,hprints⟩
  · cases hnone

theorem Told.congr {s : Seen} {emitted emitted' : List String} (h : Told s emitted)
    (hscreen : screen emitted' = screen emitted) : Told s emitted' where
  root := h.root
  shown := by
    rw [hscreen]
    exact h.shown
  broken := by
    rw [hscreen]
    exact h.broken

/-- One patch between legible trees. -/
theorem Told.carry {s s' : Seen} {emitted printed : List String} (h : Told s emitted) {patch : Patch}
    (hpatch : patch.Legible) (hcarry : screenVisitor.carry s patch = some s')
    (hroot : patch.internal.onRoot s.root = some s'.root) (hprints : patch.internal.Prints s'.root printed) :
    Told s' (emitted ++ printed) := by
  have hlegible : Legible s'.root := onRoot_legible hpatch h.root hroot
  cases patch with
  | replace node =>
    cases hcarry
    exact h.draw hlegible hpatch hprints
  | appendChild node =>
    obtain ⟨root,-,rfl⟩ := Option.map_eq_some_iff.mp hcarry
    exact h.draw hlegible hpatch hprints
  | removeChild index =>
    obtain ⟨root,-,rfl⟩ := Option.map_eq_some_iff.mp hcarry
    obtain ⟨rest,rfl,hrest⟩ : Redraws root printed := hprints
    exact told_cleared hlegible (pieces_plain root hlegible) hrest emitted
  | updateText text =>
    obtain ⟨root,-,rfl⟩ := Option.map_eq_some_iff.mp hcarry
    obtain rfl : printed = [clearSequence,text] := hprints
    have hplain : ∀ piece ∈ [Piece.text text], piece.Plain := List.forall_mem_singleton.mpr hpatch
    have htext : PrintAll [.text text] [text] := .cons (show (Piece.text text).Prints text from rfl) .nil
    exact told_cleared hlegible hplain htext emitted
  | none =>
    cases hcarry
    obtain rfl : printed = [] := hprints
    rw [List.append_nil]
    exact h
  | updateProps props =>
    obtain ⟨root,-,rfl⟩ := Option.map_eq_some_iff.mp hcarry
    obtain ⟨entries,hperm,rfl⟩ := hprints
    have hlines : ∀ text ∈ entries.map propLine, '\n' ∈ text.toList := by
      intro text htext
      obtain ⟨entry,-,rfl⟩ := List.mem_map.mp htext
      exact propLine_break entry
    have hentries : entries ≠ [] := by
      rintro rfl
      apply hpatch.1
      rw [← ExtTreeMap.isEmpty_iff,← ExtTreeMap.isEmpty_toList,List.nil_perm.mp hperm]
      rfl
    obtain ⟨entry,rest,rfl⟩ := List.exists_cons_of_ne_nil hentries
    refine ⟨hlegible,fun shown hshown => ?_,fun _ => ⟨propLine entry,?_,propLine_break entry⟩⟩
    · cases hshown
    rw [screen_append,foldl_display _ fun text htext => ne_clear_of_break (hlines text htext)]
    exact List.mem_append_right _ List.mem_cons_self

/-- All patches that the renderer has printed for. -/
theorem PrintsFrom.told {patches : List Patch} {root root' : VNode} {printed emitted : List String}
    (h : PrintsFrom patches root root' printed) {shown : Option (List Piece)} (hs : Told ⟨root,shown⟩ emitted)
    (hpatches : ∀ patch ∈ patches, patch.Legible) :
    ∃ after, patches.foldlM screenVisitor.carry ⟨root,shown⟩ = some ⟨root',after⟩ ∧
      Told ⟨root',after⟩ (emitted ++ printed) := by
  induction patches generalizing root printed emitted shown with
  | nil =>
    obtain ⟨rfl,rfl⟩ := h
    rw [List.append_nil]
    exact ⟨shown,rfl,hs⟩
  | cons patch patches ih =>
    obtain ⟨middle,p,q,rfl,hroot,hp,hrest⟩ := h
    obtain ⟨hpatch,hlater⟩ := List.forall_mem_cons.mp hpatches
    obtain ⟨next,hcarry⟩ := screenVisitor_carry (s := ⟨root,shown⟩) hroot
    obtain ⟨after,hafter,htold⟩ := ih hrest (hs.carry hpatch hcarry hroot hp) hlater
    rw [List.append_assoc] at htold
    exact ⟨after,by rw [List.foldlM_cons,hcarry]; exact hafter,htold⟩

/-- The screen agrees with a redraw of a legible root exactly when the pieces of that root are shown. -/
theorem Told.agrees_iff {s : Seen} {r : Renderer} (h : Told s r.terminal.emitted) (hroot : Legible r.root) :
    Agrees r ↔ s.shown = some (pieces r.root) := by
  rw [VirtualDom.agrees_iff]
  have hplain := pieces_plain r.root hroot
  have hsame {rest : List String} (hrest : PrintAll (pieces r.root) rest) : screen (clearSequence::rest) = rest :=
    screen_after_clear [] fun text htext => (printAll_printed hplain hrest text htext).2
  constructor
  · rintro ⟨rest,hrest,hscreen⟩
    rw [hsame hrest] at hscreen
    cases hshown : s.shown with
    | none =>
      obtain ⟨text,htext,hbreak⟩ := h.broken hshown
      rw [hscreen] at htext
      exact absurd hbreak (printAll_printed hplain hrest text htext).1
    | some shown =>
      obtain ⟨hpieces,hall⟩ := h.shown shown hshown
      rw [hscreen] at hall
      rw [printAll_inj hpieces hplain hall hrest]
  · intro hshown
    have hall := (h.shown _ hshown).2
    exact ⟨_,hall,(hsame hall).symm⟩

/-- Between trees whose texts are plain a successful call keeps the agreement exactly under the
condition. -/
theorem render_agrees_iff {order : HashOrder String String} {newRoot : VNode} {r r' : Renderer}
    (hagrees : Agrees r) (hold : Legible r.root) (hnew : Legible newRoot)
    (h : render order newRoot r = .ok () r') : Agrees r' ↔ Redrawn r.root newRoot := by
  refine ⟨fun hagrees' => ?_,fun hredrawn => render_agrees hagrees hredrawn h⟩
  obtain ⟨hroot,printed,root',hemitted,hprints⟩ := render_writes order newRoot h
  obtain ⟨rest,hrest,hscreen⟩ := VirtualDom.agrees_iff.mp hagrees
  have hplain := pieces_plain r.root hold
  have htold : Told ⟨r.root,some (pieces r.root)⟩ r.terminal.emitted := by
    refine (told_cleared hold hplain hrest []).congr ?_
    rw [hscreen,screen_clear]
  obtain ⟨after,hafter,htold'⟩ := hprints.told htold (diff_legible r.root newRoot hnew)
  rw [← hemitted] at htold'
  have hshown := (htold'.agrees_iff (hroot ▸ hnew)).mp hagrees'
  rw [screenVisitor.carry_diff] at hafter
  rw [hroot] at hshown
  exact ⟨root',hafter.trans (by rw [show after = some (pieces newRoot) from hshown])⟩

/-! ### Runs -/

theorem renders_exact {r : Renderer} {calls : List (HashOrder String String × VNode)} {states : List Renderer}
    (h : Renders r calls states) (hlegible : ∀ root ∈ r.root::calls.map Prod.snd, Legible root)
    (hagrees : ∀ s ∈ r::states, Agrees s) : List.IsChain Redrawn (r.root::calls.map Prod.snd) := by
  induction h with
  | nil r => exact List.isChain_singleton _
  | @cons r r' calls states order newRoot hrender hcalls ih =>
    obtain ⟨hold,hlater⟩ := List.forall_mem_cons.mp hlegible
    obtain ⟨hfirst,hrest⟩ := List.forall_mem_cons.mp hagrees
    have hroot := (render_writes order newRoot hrender).1
    have hnew : Legible newRoot := hlater _ List.mem_cons_self
    have hstep := (render_agrees_iff hfirst hold hnew hrender).mp (hrest _ List.mem_cons_self)
    have hchain := ih (by rw [hroot]; exact hlater) hrest
    rw [hroot] at hchain
    exact List.isChain_cons_cons.mpr ⟨hstep,hchain⟩

/-- After `render_all` and any number of successful calls of `render`: when each call redraws the
new root from the old one, the terminal always shows what a full redraw would show, and where no
text holds an escape or a line break it does so only then. -/
theorem renders_agree_iff {order : HashOrder String String} {r r₀ : Renderer}
    {calls : List (HashOrder String String × VNode)} {states : List Renderer} (hall : renderAll order r = .ok () r₀)
    (h : Renders r₀ calls states) :
    (List.IsChain Redrawn (r₀.root::calls.map Prod.snd) → ∀ s ∈ r₀::states, Agrees s) ∧
    ((∀ root ∈ r₀.root::calls.map Prod.snd, Legible root) →
      ((∀ s ∈ r₀::states, Agrees s) ↔ List.IsChain Redrawn (r₀.root::calls.map Prod.snd))) := by
  have hchain := renders_agree h (renderAll_agrees hall)
  exact ⟨hchain,fun hlegible => ⟨renders_exact h hlegible,hchain⟩⟩

/-- A child is added, and the terminal shows both. -/
theorem renders_agree_append : Agrees ⟨.element ⟨"div",∅,∅,[.text "a"] ++ [.text "b"]⟩,
    ⟨["\x1b[2J\x1b[1;1H","a","b"],3,fun _ => none⟩⟩ := by
  have hall : renderAll .sorted ⟨.element ⟨"div",∅,∅,[.text "a"]⟩,.quiet⟩ = .ok ()
      ⟨.element ⟨"div",∅,∅,[.text "a"]⟩,⟨["\x1b[2J\x1b[1;1H","a"],2,fun _ => none⟩⟩ := rfl
  have hredrawn := redrawn_append (show "div" ≠ "text" by decide) ∅ ∅ [.text "a"] [.text "b"]
  have hrender : render .sorted (.element ⟨"div",∅,∅,[.text "a"] ++ [.text "b"]⟩)
      ⟨.element ⟨"div",∅,∅,[.text "a"]⟩,⟨["\x1b[2J\x1b[1;1H","a"],2,fun _ => none⟩⟩ = .ok () _ := rfl
  have hchain := (renders_agree_iff hall (.cons hrender (.nil _))).1 (List.isChain_pair.mpr hredrawn)
  exact hchain _ (List.mem_cons_of_mem _ List.mem_cons_self)

/-- A text is replaced by an element, and the terminal still shows the text. -/
theorem renders_not_agree : ∃ r₀ r', renderAll .sorted ⟨.text "a",.quiet⟩ = .ok () r₀ ∧
    render .sorted (.element ⟨"div",∅,∅,[.text "b"]⟩) r₀ = .ok () r' ∧ ¬Agrees r' := by
  refine ⟨⟨.text "a",⟨["\x1b[2J\x1b[1;1H","a"],2,fun _ => none⟩⟩,
    ⟨.element ⟨"div",∅,∅,[.text "b"]⟩,⟨["\x1b[2J\x1b[1;1H","a","b"],3,fun _ => none⟩⟩,rfl,?_,?_⟩
  · rfl
  · rintro ⟨printed,⟨rest,rfl,hrest⟩,hscreen⟩
    have hpieces : pieces (.element ⟨"div",∅,∅,[.text "b"]⟩) = [.text "b"] := rfl
    rw [hpieces] at hrest
    obtain ⟨text,_,rfl,hnil,rfl⟩ := List.forall₂_cons_left_iff.mp hrest
    obtain rfl := List.forall₂_nil_left_iff.mp hnil
    revert hscreen
    decide

end VirtualDom
end NodeRustPty
