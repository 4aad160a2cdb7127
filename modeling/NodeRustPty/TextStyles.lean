import NodeRustPty.FailedRenders
import NodeRustPty.Sgr

/-! The styles of text elements: what the codes of `apply_styles` select, in every order of
the style map, and under which attributes `render_node` shows every text of a tree. -/
namespace NodeRustPty
namespace VirtualDom

open Std Sgr

/-! ### One style -/

/-- The colours that the renderer knows, by their number. -/
def colour : String → Option ℕ
  | "black" => some 0
  | "red" => some 1
  | "green" => some 2
  | "yellow" => some 3
  | "blue" => some 4
  | "magenta" => some 5
  | "cyan" => some 6
  | "white" => some 7
  | _ => none

/-- What one entry of the styles does to the attributes. -/
def styleEffect (a : Attributes) (key value : String) : Attributes :=
  match key with
  | "color" => match colour value with
    | some c => { a with foreground := some c }
    | none => plain
  | "background" => match colour value with
    | some c => { a with background := some c }
    | none => plain
  | "bold" => if value = "true" then { a with bold := true } else a
  | "underline" => if value = "true" then { a with underline := true } else a
  | "italic" => if value = "true" then { a with italic := true } else a
  | "strikethrough" => if value = "true" then { a with strikethrough := true } else a
  | _ => a

/-- The number of a colour code: the base and the colour, or the reset. -/
def colourNumber (base : ℕ) (value : String) : ℕ :=
  match colour value with
  | some c => base+c
  | none => 0

theorem read_colorCode (a : Attributes) (value : String) :
    (colorCode value).toList.foldl Pen.read ⟨.codes [] 0,a⟩ = ⟨.codes [] (colourNumber 30 value),a⟩ := by
  unfold colorCode colourNumber colour
  split
  case h_9 =>
    simp only [*]
    rfl
  all_goals rfl

theorem read_backgroundCode (a : Attributes) (value : String) :
    (backgroundCode value).toList.foldl Pen.read ⟨.codes [] 0,a⟩ = ⟨.codes [] (colourNumber 40 value),a⟩ := by
  unfold backgroundCode colourNumber colour
  split
  case h_9 =>
    simp only [*]
    rfl
  all_goals rfl

theorem colour_lt {value : String} {c : ℕ} (h : colour value = some c) : c < 8 := by
  unfold colour at h
  split at h <;> simp at h <;> omega

theorem select_color (a : Attributes) (value : String) :
    select a (colourNumber 30 value) = styleEffect a "color" value := by
  unfold colourNumber styleEffect
  cases h : colour value with
  | none => rfl
  | some c =>
    have hc := colour_lt h
    have hrange : 30 ≤ 30+c ∧ 30+c ≤ 37 := by omega
    simp only [select,if_neg (show 30+c ≠ 0 by omega),if_neg (show 30+c ≠ 1 by omega),
      if_neg (show 30+c ≠ 3 by omega),if_neg (show 30+c ≠ 4 by omega),if_neg (show 30+c ≠ 9 by omega),
      if_pos hrange,Nat.add_sub_cancel_left]

theorem select_background (a : Attributes) (value : String) :
    select a (colourNumber 40 value) = styleEffect a "background" value := by
  unfold colourNumber styleEffect
  cases h : colour value with
  | none => rfl
  | some c =>
    have hc := colour_lt h
    have hbefore : ¬(30 ≤ 40+c ∧ 40+c ≤ 37) := by omega
    have hrange : 40 ≤ 40+c ∧ 40+c ≤ 47 := by omega
    simp only [select,if_neg (show 40+c ≠ 0 by omega),if_neg (show 40+c ≠ 1 by omega),
      if_neg (show 40+c ≠ 3 by omega),if_neg (show 40+c ≠ 4 by omega),if_neg (show 40+c ≠ 9 by omega),
      if_neg hbefore,if_pos hrange,Nat.add_sub_cancel_left]

/-- The code of a style is read as its effect. -/
theorem readAll_styleCode (a : Attributes) (key value : String) :
    (Pen.at a).readAll (styleCode key value) = .at (styleEffect a key value) := by
  unfold styleCode
  split
  · rw [Pen.readAll_code a (read_colorCode a value),select_color]
  · rw [Pen.readAll_code a (read_backgroundCode a value),select_background]
  · unfold styleEffect
    split <;> rfl
  · unfold styleEffect
    split <;> rfl
  · unfold styleEffect
    split <;> rfl
  · unfold styleEffect
    split <;> rfl
  · unfold styleEffect
    split <;> simp_all

/-! ### All styles of an element -/

abbrev StyleEntries := List (String × String)

/-- The styles one after another, each on what those before it selected. -/
def styleEffects (a : Attributes) (entries : StyleEntries) : Attributes :=
  entries.foldl (fun a entry => styleEffect a entry.1 entry.2) a

/-- What the codes of `apply_styles` are read as. -/
theorem readAll_applyStyles (order : HashOrder String String) (a : Attributes) (elem : VElement VNode) :
    (Pen.at a).readAll (applyStyles order elem) = .at (styleEffects a (order.entries elem.styles)) := by
  have hfold (entries : StyleEntries) (codes : String) (b : Attributes)
      (h : (Pen.at a).readAll codes = .at b) :
      (Pen.at a).readAll (entries.foldl (fun codes entry => codes ++ styleCode entry.1 entry.2) codes) =
        .at (styleEffects b entries) := by
    induction entries generalizing codes b with
    | nil => exact h
    | cons entry entries ih =>
      refine ih _ (styleEffect b entry.1 entry.2) ?_
      rw [Pen.readAll_append,h,readAll_styleCode]
  exact hfold _ "" a rfl

/-- The attributes with the known styles of a map selected as well. -/
def overlay (a : Attributes) (style : String → Option String) : Attributes where
  foreground := ((style "color").bind colour).or a.foreground
  background := ((style "background").bind colour).or a.background
  bold := a.bold || style "bold" == some "true"
  italic := a.italic || style "italic" == some "true"
  underline := a.underline || style "underline" == some "true"
  strikethrough := a.strikethrough || style "strikethrough" == some "true"

/-- The known styles that an element declares. -/
def declared (styles : Styles) : Attributes := overlay plain fun key => styles[key]?

/-- The entry names no colour, or one that the renderer knows. -/
def Recognised (key value : String) : Prop :=
  key = "color" ∨ key = "background" → (colour value).isSome

theorem overlay_none (a : Attributes) : overlay a (fun _ => none) = a := by
  simp [overlay]

/-- One more style, which none of the later ones names again. -/
theorem overlay_styleEffect (a : Attributes) {key value : String} {rest : StyleEntries}
    (hnew : rest.lookup key = none) (h : Recognised key value) :
    overlay (styleEffect a key value) (fun k => rest.lookup k) =
      overlay a fun k => ((key,value)::rest).lookup k := by
  unfold styleEffect
  split
  · obtain ⟨c,hc⟩ := Option.isSome_iff_exists.mp (h (.inl rfl))
    simp [overlay,List.lookup_cons,hnew,hc]
  · obtain ⟨c,hc⟩ := Option.isSome_iff_exists.mp (h (.inr rfl))
    simp [overlay,List.lookup_cons,hnew,hc]
  · by_cases hv : value = "true" <;> simp [overlay,List.lookup_cons,hnew,hv]
  · by_cases hv : value = "true" <;> simp [overlay,List.lookup_cons,hnew,hv]
  · by_cases hv : value = "true" <;> simp [overlay,List.lookup_cons,hnew,hv]
  · by_cases hv : value = "true" <;> simp [overlay,List.lookup_cons,hnew,hv]
  · next h₁ h₂ h₃ h₄ h₅ h₆ =>
    have hne (k : String) (hk : key = k → False) : (k == key) = false := by
      simpa using fun e : k = key => hk e.symm
    simp only [overlay,List.lookup_cons,hne _ h₁,hne _ h₂,hne _ h₃,hne _ h₄,hne _ h₅,hne _ h₆]

/-- Styles with different keys and known colours only are selected all, in any order. -/
theorem styleEffects_eq_overlay (a : Attributes) {entries : StyleEntries}
    (hdistinct : (entries.map Prod.fst).Nodup) (h : ∀ entry ∈ entries, Recognised entry.1 entry.2) :
    styleEffects a entries = overlay a fun key => entries.lookup key := by
  induction entries generalizing a with
  | nil => exact (overlay_none a).symm
  | cons entry entries ih =>
    obtain ⟨hnew,hrest⟩ := List.nodup_cons.mp hdistinct
    have hnone : entries.lookup entry.1 = none := by
      rw [List.lookup_eq_none_iff]
      intro other hother
      simpa using fun e : entry.1 = other.1 => hnew (e ▸ List.mem_map_of_mem hother)
    refine (ih _ hrest fun other hother => h other (List.mem_cons_of_mem _ hother)).trans ?_
    exact overlay_styleEffect a hnone (h entry List.mem_cons_self)

/-! ### Every order of the styles -/

/-- The attributes that an element's codes select from the plain ones. -/
def selected (order : HashOrder String String) (elem : VElement VNode) : Attributes :=
  ((Pen.at plain).readAll (applyStyles order elem)).attributes

theorem selected_eq (order : HashOrder String String) (elem : VElement VNode) :
    selected order elem = styleEffects plain (order.entries elem.styles) := by
  rw [selected,readAll_applyStyles]
  rfl

theorem selected_of_recognised (order : HashOrder String String) {elem : VElement VNode}
    (h : ∀ key value : String, elem.styles[key]? = some value → Recognised key value) :
    selected order elem = declared elem.styles := by
  have hall : ∀ entry ∈ order.entries elem.styles, Recognised entry.1 entry.2 := fun entry hentry =>
    h entry.1 entry.2 ((order.mem_entries _ _ _).mp hentry)
  rw [selected_eq,styleEffects_eq_overlay plain (order.nodup_keys _) hall]
  simp only [order.lookup_entries,declared]

/-- Where no known style is declared, nothing is selected by any of them. -/
theorem styleEffect_of_declared_plain {styles : Styles} (h : declared styles = plain) {key value : String}
    (hvalue : styles[key]? = some value) : styleEffect plain key value = plain := by
  unfold styleEffect
  split
  · have hfield := congrArg Attributes.foreground h
    cases hc : colour value with
    | none => rfl
    | some c => simp [declared,overlay,plain,hvalue,hc] at hfield
  · have hfield := congrArg Attributes.background h
    cases hc : colour value with
    | none => rfl
    | some c => simp [declared,overlay,plain,hvalue,hc] at hfield
  · have hfield := congrArg Attributes.bold h
    by_cases hv : value = "true" <;> simp_all [declared,overlay,plain]
  · have hfield := congrArg Attributes.underline h
    by_cases hv : value = "true" <;> simp_all [declared,overlay,plain]
  · have hfield := congrArg Attributes.italic h
    by_cases hv : value = "true" <;> simp_all [declared,overlay,plain]
  · have hfield := congrArg Attributes.strikethrough h
    by_cases hv : value = "true" <;> simp_all [declared,overlay,plain]
  · rfl

theorem selected_of_declared_plain (order : HashOrder String String) {elem : VElement VNode}
    (h : declared elem.styles = plain) : selected order elem = plain := by
  have hall : ∀ entry ∈ order.entries elem.styles, styleEffect plain entry.1 entry.2 = plain := fun entry hentry =>
    styleEffect_of_declared_plain h ((order.mem_entries _ _ _).mp hentry)
  have hfold (entries : StyleEntries) (hentries : ∀ entry ∈ entries, styleEffect plain entry.1 entry.2 = plain) :
      styleEffects plain entries = plain := by
    induction entries with
    | nil => rfl
    | cons entry entries ih =>
      have hrest := ih fun other hother => hentries other (List.mem_cons_of_mem _ hother)
      have hcons : styleEffects plain (entry::entries) = styleEffects (styleEffect plain entry.1 entry.2) entries := rfl
      rw [hcons,hentries entry List.mem_cons_self,hrest]
  rw [selected_eq]
  exact hfold _ hall

/-- An unknown colour resets everything before it. -/
theorem styleEffect_of_not_recognised (a : Attributes) {key value : String} (h : ¬Recognised key value) :
    styleEffect a key value = plain := by
  obtain ⟨hkey,hnone⟩ : (key = "color" ∨ key = "background") ∧ colour value = none := by
    simpa [Recognised] using h
  rcases hkey with rfl | rfl <;> simp [styleEffect,hnone]

/-- The last style has its effect on what the others selected. -/
theorem selected_lastly {elem : VElement VNode} {key value : String} (hvalue : elem.styles[key]? = some value) :
    ∃ a, selected (.lastly key) elem = styleEffect a key value := by
  obtain ⟨front,hentries⟩ := HashOrder.lastly_entries hvalue
  rw [selected_eq,hentries,styleEffects,List.foldl_append]
  exact ⟨_,rfl⟩

/-- Every order selects what is declared exactly when every colour is known or no known style
is declared. -/
theorem forall_selected_iff (elem : VElement VNode) :
    (∀ order : HashOrder String String, selected order elem = declared elem.styles) ↔
    (∀ key value : String, elem.styles[key]? = some value → Recognised key value) ∨
      declared elem.styles = plain := by
  constructor
  · intro h
    refine or_iff_not_imp_right.mpr fun hdeclared key value hvalue => ?_
    by_contra hnot
    obtain ⟨a,hlast⟩ := selected_lastly hvalue
    exact hdeclared ((h (.lastly key)).symm.trans (hlast.trans (styleEffect_of_not_recognised a hnot)))
  · rintro (h | h) order
    · exact selected_of_recognised order h
    · rw [selected_of_declared_plain order h,h]

/-- The codes select the declared known styles in every order of the map exactly when every
colour is known or no known style is declared. -/
theorem selected_declared_iff (elem : VElement VNode) :
    (∀ order order' : HashOrder String String, selected order elem = selected order' elem ∧
      selected order elem = declared elem.styles) ↔
    (∀ key value : String, elem.styles[key]? = some value → Recognised key value) ∨
      declared elem.styles = plain := by
  rw [← forall_selected_iff]
  exact ⟨fun h order => (h order order).2,fun h order order' => ⟨(h order).trans (h order').symm,h order⟩⟩

/-- Bold and a colour that is not known. -/
def orangeStyles : Styles := ((∅ : Styles).insert "bold" "true").insert "color" "orange"

def orange : VElement VNode := ⟨"text",∅,orangeStyles,[]⟩

theorem declared_orange : (declared orangeStyles).bold = true := by
  have hbold : orangeStyles["bold"]? = some "true" := by
    rw [orangeStyles,getElem?_insert_if,getElem?_insert_if]
    rfl
  simp [declared,overlay,hbold]

/-- Bold is lost in one order and kept in another. -/
theorem selected_orange : (selected (.lastly "color") orange).bold = false ∧
    (selected (.lastly "bold") orange).bold = true ∧ (declared orange.styles).bold = true := by
  have hcolor : orange.styles["color"]? = some "orange" := by simp [orange,orangeStyles]
  have hbold : orange.styles["bold"]? = some "true" := by
    rw [orange,orangeStyles,getElem?_insert_if,getElem?_insert_if]
    rfl
  obtain ⟨a,hlast⟩ := selected_lastly hcolor
  obtain ⟨a',hlast'⟩ := selected_lastly hbold
  refine ⟨?_,?_,declared_orange⟩
  · rw [hlast]
    rfl
  · rw [hlast']
    rfl

/-! ### A drawing -/

section Drawing

variable (order : HashOrder String String)

mutual
/-- The output of a drawing, one group for each string that is printed. -/
def drawing : VNode → List (List Output)
  | .text text => [[.content text]]
  | .element elem => elementDrawing elem
def elementDrawing : VElement VNode → List (List Output)
  | ⟨tag,props,styles,children⟩ =>
    if tag = "text" then
      match props["content"]? with
      | some content =>
        [[.control (applyStyles order ⟨tag,props,styles,children⟩),.content content,.control "\x1B[0m"]]
      | none => []
    else rowDrawing children
def rowDrawing : List VNode → List (List Output)
  | [] => []
  | child::children => drawing child ++ rowDrawing children
end

mutual
/-- The visible leaves in pre-order: texts, which have no style, and text elements with a
content, each with the attributes that `styled` gives it. -/
def leavesWith (styled : VElement VNode → Attributes) : VNode → List (String × Attributes)
  | .text text => [(text,plain)]
  | .element elem => elementLeavesWith styled elem
def elementLeavesWith (styled : VElement VNode → Attributes) : VElement VNode → List (String × Attributes)
  | ⟨tag,props,styles,children⟩ =>
    if tag = "text" then
      match props["content"]? with
      | some content => [(content,styled ⟨tag,props,styles,children⟩)]
      | none => []
    else rowLeavesWith styled children
def rowLeavesWith (styled : VElement VNode → Attributes) : List VNode → List (String × Attributes)
  | [] => []
  | child::children => leavesWith styled child ++ rowLeavesWith styled children
end

/-- The visible leaves, each text element's content under the styles that it declares. -/
def leaves (node : VNode) : List (String × Attributes) := leavesWith (fun elem => declared elem.styles) node

mutual
/-- The visible text elements, those with a content and in no other text element. -/
def visible : VNode → List (VElement VNode)
  | .text _ => []
  | .element elem => visibleElement elem
def visibleElement : VElement VNode → List (VElement VNode)
  | ⟨tag,props,styles,children⟩ =>
    if tag = "text" then
      match props["content"]? with
      | some _ => [⟨tag,props,styles,children⟩]
      | none => []
    else visibleRow children
def visibleRow : List VNode → List (VElement VNode)
  | [] => []
  | child::children => visible child ++ visibleRow children
end

mutual
theorem length_leavesWith (f g : VElement VNode → Attributes) :
    ∀ node, (leavesWith f node).length = (leavesWith g node).length
  | .text _ => rfl
  | .element ⟨tag,props,styles,children⟩ => by
    show (elementLeavesWith f _).length = (elementLeavesWith g _).length
    unfold elementLeavesWith
    split
    · split <;> rfl
    · exact length_rowLeavesWith f g children
theorem length_rowLeavesWith (f g : VElement VNode → Attributes) :
    ∀ children, (rowLeavesWith f children).length = (rowLeavesWith g children).length
  | [] => rfl
  | child::children => by
    rw [rowLeavesWith,rowLeavesWith,List.length_append,List.length_append,length_leavesWith f g child,
      length_rowLeavesWith f g children]
end

mutual
/-- Two ways to style give the same leaves where they agree on the visible text elements. -/
theorem leavesWith_eq_iff (f g : VElement VNode → Attributes) :
    ∀ node, leavesWith f node = leavesWith g node ↔ ∀ elem ∈ visible node, f elem = g elem
  | .text _ => ⟨fun _ elem helem => absurd helem List.not_mem_nil,fun _ => rfl⟩
  | .element ⟨tag,props,styles,children⟩ => by
    show elementLeavesWith f _ = elementLeavesWith g _ ↔ ∀ elem ∈ visibleElement _, f elem = g elem
    unfold elementLeavesWith visibleElement
    split
    · split
      · simp
      · simp
    · exact rowLeavesWith_eq_iff f g children
theorem rowLeavesWith_eq_iff (f g : VElement VNode → Attributes) :
    ∀ children, rowLeavesWith f children = rowLeavesWith g children ↔ ∀ elem ∈ visibleRow children, f elem = g elem
  | [] => ⟨fun _ elem helem => absurd helem List.not_mem_nil,fun _ => rfl⟩
  | child::children => by
    rw [visibleRow,List.forall_mem_append,← leavesWith_eq_iff f g child,← rowLeavesWith_eq_iff f g children]
    constructor
    · exact fun h => List.append_inj h (length_leavesWith f g child)
    · rintro ⟨hchild,hchildren⟩
      rw [rowLeavesWith,rowLeavesWith,hchild,hchildren]
end

/-- Each group shows its leaf and leaves the pen as it was. -/
structure Restores (groups : List (List Output)) (shown : List (String × Attributes)) : Prop where
  after : ∀ group ∈ groups, (Pen.at plain).after group = .at plain
  shows : groups.flatMap (Pen.at plain).shows = shown

variable {order}

theorem restores_nil : Restores [] [] := ⟨by simp,rfl⟩

theorem Restores.append {groups groups' : List (List Output)} {shown shown' : List (String × Attributes)}
    (h : Restores groups shown) (h' : Restores groups' shown') : Restores (groups ++ groups') (shown ++ shown') := by
  constructor
  · intro group hgroup
    exact (List.mem_append.mp hgroup).elim (h.after group) (h'.after group)
  · rw [List.flatMap_append,h.shows,h'.shows]

theorem restores_text (text : String) : Restores [[.content text]] [(text,plain)] := ⟨by simp [Pen.after],rfl⟩

theorem restores_styled (elem : VElement VNode) (content : String) :
    Restores [[.control (applyStyles order elem),.content content,.control "\x1B[0m"]]
      [(content,selected order elem)] := by
  refine ⟨?_,rfl⟩
  simp only [List.mem_singleton,forall_eq,Pen.after]
  rw [readAll_applyStyles]
  rfl

variable (order)

mutual
theorem restores_drawing : ∀ node, Restores (drawing order node) (leavesWith (selected order) node)
  | .text text => restores_text text
  | .element ⟨tag,props,styles,children⟩ => by
    show Restores (elementDrawing order _) (elementLeavesWith (selected order) _)
    unfold elementDrawing elementLeavesWith
    split
    · split
      · exact restores_styled _ _
      · exact restores_nil
    · exact restores_rowDrawing children
theorem restores_rowDrawing : ∀ children,
    Restores (rowDrawing order children) (rowLeavesWith (selected order) children)
  | [] => restores_nil
  | child::children => (restores_drawing child).append (restores_rowDrawing children)
end

end Drawing

/-- Wherever the drawing stops: the pen is back, and the leaves before are shown. -/
theorem Restores.shows_drawn {groups drawn : List (List Output)} {shown : List (String × Attributes)}
    (h : Restores groups shown) (hdrawn : drawn <+: groups) :
    (Pen.at plain).after drawn.flatten = .at plain ∧ (Pen.at plain).shows drawn.flatten <+: shown := by
  obtain ⟨hafter,hshows⟩ := Pen.shows_flatten fun group hgroup => h.after group (hdrawn.subset hgroup)
  refine ⟨hafter,?_⟩
  obtain ⟨rest,rfl⟩ := hdrawn
  rw [hshows,← h.shows,List.flatMap_append]
  exact List.prefix_append _ _

/-- The string that is printed for a group. -/
def printed (group : List Output) : String := String.join (group.map Output.text)

/-- The action prints the groups one by one and leaves the root. It may only stop early as
an error. -/
def PrintsGroups (action : RenderM Unit) (groups : List (List Output)) : Prop :=
  ∀ (root : VNode) (t : Terminal), ∃ drawn t', drawn <+: groups ∧ t'.emitted = t.emitted ++ drawn.map printed ∧
    (action ⟨root,t⟩ = .ok () ⟨root,t'⟩ ∧ drawn = groups ∨ ∃ e, action ⟨root,t⟩ = .error e ⟨root,t'⟩)

theorem printsGroups_pure : PrintsGroups (pure ()) [] :=
  fun _ t => ⟨[],t,List.prefix_rfl,(List.append_nil _).symm,.inl ⟨rfl,rfl⟩⟩

theorem PrintsGroups.bind {first second : RenderM Unit} {groups groups' : List (List Output)}
    (hfirst : PrintsGroups first groups) (hsecond : PrintsGroups second groups') :
    PrintsGroups (first >>= fun _ => second) (groups ++ groups') := by
  intro root t
  obtain ⟨drawn,t₁,hdrawn,hemitted,⟨hok,rfl⟩ | ⟨e,herror⟩⟩ := hfirst root t
  · obtain ⟨drawn',t₂,hdrawn',hemitted',hend⟩ := hsecond root t₁
    refine ⟨drawn ++ drawn',t₂,(List.prefix_append_right_inj drawn).mpr hdrawn',?_,?_⟩
    · rw [hemitted',hemitted,List.append_assoc,List.map_append]
    · rw [bind_ok hok]
      exact hend.imp_left fun ⟨hok',hall⟩ => ⟨hok',congrArg _ hall⟩
  · exact ⟨drawn,t₁,hdrawn.trans (List.prefix_append _ _),hemitted,.inr ⟨e,bind_error herror⟩⟩

theorem printsGroups_print_flush (group : List Output) :
    PrintsGroups (print (printed group) >>= fun _ => flush) [group] := by
  intro root t
  refine ⟨[group],{ t with emitted := t.emitted ++ [printed group], flushes := t.flushes+1 },List.prefix_rfl,rfl,?_⟩
  have hprint : print (printed group) ⟨root,t⟩ = .ok () ⟨root,{ t with emitted := t.emitted ++ [printed group] }⟩ := rfl
  rw [bind_ok hprint]
  cases hfault : t.faults t.flushes with
  | none => exact .inl ⟨flush_ok hfault,rfl⟩
  | some e => exact .inr ⟨_,flush_error hfault⟩

mutual
theorem printsGroups_renderNode (order : HashOrder String String) :
    ∀ node, PrintsGroups (renderNode order node) (drawing order node)
  | .text text => by
    have hprinted : text = printed [.content text] := by simp [printed,Output.text]
    show PrintsGroups (renderText text) [[.content text]]
    nth_rewrite 1 [hprinted]
    exact printsGroups_print_flush _
  | .element ⟨tag,props,styles,children⟩ => by
    show PrintsGroups (renderElement order _) (elementDrawing order _)
    unfold renderElement elementDrawing
    split
    · rw [if_pos rfl]
      cases props["content"]? with
      | none => exact printsGroups_pure
      | some content =>
        have hprinted : ∀ codes : String, codes ++ content ++ "\x1B[0m" =
            printed [.control codes,.content content,.control "\x1B[0m"] := fun codes => by
          simp [printed,Output.text,String.join,String.append_assoc]
        simp only [hprinted]
        exact printsGroups_print_flush _
    · next htag =>
      rw [if_neg htag]
      exact printsGroups_renderChildren order children
theorem printsGroups_renderChildren (order : HashOrder String String) :
    ∀ children, PrintsGroups (renderChildren order children) (rowDrawing order children)
  | [] => printsGroups_pure
  | child::children => (printsGroups_renderNode order child).bind (printsGroups_renderChildren order children)
end

/-- In every order of the style maps, a drawing shows these leaves one after another and ends
with the plain attributes. When a flush fails it has shown those before, and the attributes are
the plain ones too. -/
def ShowsLeaves (node : VNode) (shown : HashOrder String String → List (String × Attributes)) : Prop :=
  ∀ (order : HashOrder String String) (root : VNode) (t : Terminal),
    ∃ drawn t', drawn <+: drawing order node ∧ t'.emitted = t.emitted ++ drawn.map printed ∧
      (Pen.at plain).after drawn.flatten = .at plain ∧
      (t.Takes node.flushes → renderNode order node ⟨root,t⟩ = .ok () ⟨root,t'⟩ ∧
        (Pen.at plain).shows drawn.flatten = shown order) ∧
      (¬t.Takes node.flushes → (∃ e, renderNode order node ⟨root,t⟩ = .error e ⟨root,t'⟩) ∧
        (Pen.at plain).shows drawn.flatten <+: shown order)

/-- Each text element is shown under what its own codes select. -/
theorem renderNode_shows (node : VNode) : ShowsLeaves node fun order => leavesWith (selected order) node := by
  intro order root t
  have hleaves := restores_drawing order node
  have hflushes : Flushes (renderNode order node) root node.flushes root root := flushes_renderNode order node
  obtain ⟨hsucceeds,hfails⟩ := hflushes t
  obtain ⟨drawn,t',hdrawn,hemitted,hend⟩ := printsGroups_renderNode order node root t
  obtain ⟨hafter,hshows⟩ := hleaves.shows_drawn hdrawn
  refine ⟨drawn,t',hdrawn,hemitted,hafter,fun htakes => ?_,fun hnot => ⟨?_,hshows⟩⟩
  · obtain ⟨t'',-,hok⟩ := hsucceeds htakes
    rcases hend with ⟨hok',rfl⟩ | ⟨e,herror⟩
    · exact ⟨hok',(Pen.shows_flatten hleaves.after).2.trans hleaves.shows⟩
    · rw [hok] at herror
      cases herror
  · obtain ⟨e,t'',herror⟩ := hfails hnot
    rcases hend with ⟨hok,-⟩ | herror'
    · rw [herror] at hok
      cases hok
    · exact herror'

/-- A terminal that takes every flush. -/
def steadyTerminal : Terminal := ⟨[],0,fun _ => none⟩

/-- What is shown is the same list for two that a drawing shows. -/
theorem ShowsLeaves.unique {node : VNode} {shown shown' : HashOrder String String → List (String × Attributes)}
    (h : ShowsLeaves node shown) (h' : ShowsLeaves node shown') (order : HashOrder String String) :
    shown order = shown' order := by
  have htakes : steadyTerminal.Takes node.flushes := fun _ _ => rfl
  obtain ⟨drawn,t',hdrawn,hemitted,-,hsuccess,-⟩ := h order (.text "") steadyTerminal
  obtain ⟨drawn',t'',hdrawn',hemitted',-,hsuccess',-⟩ := h' order (.text "") steadyTerminal
  obtain ⟨hok,hshows⟩ := hsuccess htakes
  obtain ⟨hok',hshows'⟩ := hsuccess' htakes
  have hlength : drawn.length = drawn'.length := by
    rw [hok] at hok'
    injection hok' with _ hstate
    injection hstate with _ hterminal
    rw [hterminal,hemitted'] at hemitted
    simpa using (congrArg List.length hemitted).symm
  obtain rfl : drawn = drawn' := List.IsPrefix.eq_of_length (List.prefix_of_prefix_length_le hdrawn hdrawn' hlength.le) hlength
  exact hshows.symm.trans hshows'

/-- A drawing shows the visible leaves, texts under the plain attributes and text elements under
the styles that they declare, exactly when each visible text element gives its colours only
values that are known or declares no known style. -/
theorem renderNode_shows_iff (node : VNode) : ShowsLeaves node (fun _ => leaves node) ↔
    ∀ elem ∈ visible node,
      (∀ key value : String, elem.styles[key]? = some value → Recognised key value) ∨
        declared elem.styles = plain := by
  have hselected : ShowsLeaves node (fun _ => leaves node) ↔
      ∀ order : HashOrder String String, leavesWith (selected order) node = leaves node := by
    constructor
    · exact fun h => (renderNode_shows node).unique h
    · intro h
      have hshows := renderNode_shows node
      simp only [h] at hshows
      exact hshows
  have helements : (∀ order : HashOrder String String, leavesWith (selected order) node = leaves node) ↔
      ∀ elem ∈ visible node, ∀ order, selected order elem = declared elem.styles :=
    (forall_congr' fun order => leavesWith_eq_iff (selected order) (fun elem => declared elem.styles) node).trans
      ⟨fun h elem helem order => h order elem helem,fun h order elem helem => h elem helem order⟩
  rw [hselected,helements]
  exact forall₂_congr fun elem _ => forall_selected_iff elem

/-- "x" in bold and in a colour that is not known. -/
def orangeText : VElement VNode := ⟨"text",(∅ : Props).insert "content" "x",orangeStyles,[]⟩

/-- In one order of its styles "x" is shown under the plain attributes, and not in bold. -/
theorem renderNode_shows_orange : ¬ShowsLeaves (.element orangeText) (fun _ => leaves (.element orangeText)) := by
  intro h
  have hshown := (renderNode_shows (.element orangeText)).unique h (.lastly "color")
  have hleaves (styled : VElement VNode → Attributes) :
      leavesWith styled (.element orangeText) = [("x",styled orangeText)] := by
    simp [leavesWith,elementLeavesWith,orangeText]
  rw [leaves,hleaves,hleaves] at hshown
  have hcolor : orangeText.styles["color"]? = some "orange" := by simp [orangeText,orangeStyles]
  obtain ⟨a,hlast⟩ := selected_lastly hcolor
  have hattributes : selected (.lastly "color") orangeText = declared orangeStyles := by simpa [orangeText] using hshown
  have hplain : (declared orangeStyles).bold = false := by
    rw [← hattributes,hlast]
    rfl
  rw [declared_orange] at hplain
  exact absurd hplain (by decide)

end VirtualDom
end NodeRustPty
