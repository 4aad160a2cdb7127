import NodeRustPty.PtyRenderer

/-! `pty/emulator.rs`: input goes byte by byte through a parser of terminal sequences,
which calls the output handler for each character. The parser itself is a parameter. -/
namespace NodeRustPty
namespace VirtualDom

open Std

/-- The calls of `vte::Perform`. The output handler leaves all but the first empty. -/
inductive Perform
  | print (c : Char)
  | execute
  | hook
  | put
  | unhook
  | oscDispatch
  | csiDispatch
  | escDispatch

/-- `vte::Parser`: what it calls on one byte more. -/
structure Parser where
  State : Type
  new : State
  advance : State → UInt8 → List Perform × State

namespace Parser

variable (parser : Parser)

/-- The calls on a whole input. -/
def feed : parser.State → Bytes → List Perform × parser.State
  | state,[] => ([],state)
  | state,byte::input =>
    let (calls,state) := parser.advance state byte
    (calls ++ (feed state input).1,(feed state input).2)

/-- On a text of printable characters a new parser calls `print` once for each of them, in order. -/
def PrintsEach (printable : Char → Prop) : Prop :=
  ∀ text : String, (∀ c ∈ text.toList, printable c) →
    (parser.feed parser.new text.toUTF8.toList).1 = text.toList.map .print

theorem feed_append (state : parser.State) (first second : Bytes) :
    parser.feed state (first ++ second) = ((parser.feed state first).1 ++
      (parser.feed (parser.feed state first).2 second).1,(parser.feed (parser.feed state first).2 second).2) := by
  induction first generalizing state with
  | nil => rfl
  | cons byte first ih =>
    have hstep := ih (parser.advance state byte).2
    simp only [List.cons_append,feed,hstep,List.append_assoc]

variable {parser}

/-- The same holds after earlier texts: a parser makes no calls back. -/
theorem PrintsEach.feed_next {printable : Char → Prop} (h : parser.PrintsEach printable)
    {earlier text : String} (hearlier : ∀ c ∈ earlier.toList, printable c)
    (htext : ∀ c ∈ text.toList, printable c) :
    (parser.feed (parser.feed parser.new earlier.toUTF8.toList).2 text.toUTF8.toList).1 =
      text.toList.map .print := by
  have hboth := h (earlier ++ text) (by
    intro c hc
    rw [String.toList_append,List.mem_append] at hc
    exact hc.elim (hearlier c) (htext c))
  have hbytes : (earlier ++ text).toUTF8.toList = earlier.toUTF8.toList ++ text.toUTF8.toList := by
    simp only [Utf8.toUTF8_toList,String.toList_append,Utf8.encode_append]
  rw [hbytes,feed_append,h earlier hearlier,String.toList_append,List.map_append] at hboth
  exact List.append_cancel_left hboth

end Parser

/-- The emulator, with the one renderer that its handler writes to. -/
structure Emulator (parser : Parser) where
  state : parser.State
  renderer : PtyRenderer

namespace Emulator

open PtyRenderer

variable {parser : Parser}

def new (parser : Parser) (terminal : Terminal) : Emulator parser where
  state := parser.new
  renderer := PtyRenderer.new terminal

section Inputs

variable (order : HashOrder String String)

/-- `PtyOutputHandlerWrapper`. -/
def perform : Perform → PtyRenderM Unit
  | .print c => PtyRenderer.handleOutput order [lowByte c]
  | _ => pure ()

def advance (byte : UInt8) : EStateM String (Emulator parser) Unit := fun e =>
  let (calls,state) := parser.advance e.state byte
  match calls.forM (perform order) e.renderer with
  | .ok () renderer => .ok () ⟨state,renderer⟩
  | .error error renderer => .error error ⟨state,renderer⟩

def processInput (input : Bytes) : EStateM String (Emulator parser) Unit :=
  input.forM (advance order)

/-- One input after another. -/
def processTexts (texts : List String) : EStateM String (Emulator parser) Unit :=
  texts.forM fun text => processInput order text.toUTF8.toList

end Inputs

/-! ### The node after an input -/

/-- The node that both trees of the renderer show after some calls. -/
def shown (node : VNode) (calls : List Perform) : VNode :=
  calls.foldl (fun node call => match call with
    | .print c => outputNode [lowByte c]
    | _ => node) node

theorem shown_append (node : VNode) (first second : List Perform) :
    shown node (first ++ second) = shown (shown node first) second := List.foldl_append

/-- Every character replaces what was there. -/
theorem shown_prints (node : VNode) (text : List Char) (c : Char) :
    shown node ((text ++ [c]).map .print) = outputNode [lowByte c] := by
  rw [List.map_append,shown_append]
  rfl

variable (order : HashOrder String String)

theorem perform_holds {p : PtyRenderer} {node : VNode} (hp : p.Holds node) (hnode : Visited node)
    (call : Perform) : ∃ p', perform order call p = .ok () p' ∧ p'.Holds (shown node [call]) ∧
      Visited (shown node [call]) := by
  cases call with
  | print c =>
    obtain ⟨p',hrun,hp'⟩ := run_holds order hp hnode (.print c)
    exact ⟨p',hrun,hp',outputNode_visited _⟩
  | _ => exact ⟨p,rfl,hp,hnode⟩

theorem performAll_holds {p : PtyRenderer} {node : VNode} (hp : p.Holds node) (hnode : Visited node)
    (calls : List Perform) : ∃ p', calls.forM (perform order) p = .ok () p' ∧
      p'.Holds (shown node calls) ∧ Visited (shown node calls) := by
  induction calls generalizing p node with
  | nil => exact ⟨p,rfl,hp,hnode⟩
  | cons call calls ih =>
    obtain ⟨p₁,hrun,hp₁,hnode₁⟩ := perform_holds order hp hnode call
    obtain ⟨p₂,hrest,hp₂,hnode₂⟩ := ih hp₁ hnode₁
    have hall := (forM_cons_ok hrun).trans hrest
    exact ⟨p₂,hall,hp₂,hnode₂⟩

/-- The emulator holds a node, and its parser is in this state. -/
structure Holds (e : Emulator parser) (state : parser.State) (node : VNode) : Prop where
  state : e.state = state
  renderer : e.renderer.Holds node
  visited : Visited node

theorem processInput_holds {e : Emulator parser} {state : parser.State} {node : VNode}
    (he : e.Holds state node) (input : Bytes) : ∃ e', processInput order input e = .ok () e' ∧
      e'.Holds (parser.feed state input).2 (shown node (parser.feed state input).1) := by
  induction input generalizing e state node with
  | nil => exact ⟨e,rfl,he⟩
  | cons byte input ih =>
    obtain ⟨p,hcalls,hp,hvisited⟩ := performAll_holds order he.renderer he.visited
      (parser.advance e.state byte).1
    have hadvance : advance order byte e = .ok () ⟨(parser.advance e.state byte).2,p⟩ := by
      simp only [advance,hcalls]
    rw [he.state] at hp hvisited hadvance
    have hnext : Holds ⟨(parser.advance state byte).2,p⟩ (parser.advance state byte).2
        (shown node (parser.advance state byte).1) := ⟨rfl,hp,hvisited⟩
    obtain ⟨e',hrest,he'⟩ := ih hnext
    have hfirst : processInput order (byte::input) e = processInput order input _ := forM_cons_ok hadvance
    rw [← shown_append] at he'
    exact ⟨e',hfirst.trans hrest,he'⟩

/-- The texts read so far, put together, say where the parser is. -/
theorem processTexts_holds {printable : Char → Prop} {e : Emulator parser} {read : String} {node : VNode}
    (he : e.Holds (parser.feed parser.new read.toUTF8.toList).2 node) (hread : ∀ c ∈ read.toList, printable c)
    (texts : List String) (htexts : ∀ text ∈ texts, ∀ c ∈ text.toList, printable c) :
    ∃ (e' : Emulator parser) (read' : String) (node' : VNode), processTexts order texts e = .ok () e' ∧ (∀ c ∈ read'.toList, printable c) ∧
      e'.Holds (parser.feed parser.new read'.toUTF8.toList).2 node' := by
  induction texts generalizing e read node with
  | nil => exact ⟨e,read,node,rfl,hread,he⟩
  | cons text texts ih =>
    obtain ⟨e₁,hrun,he₁⟩ := processInput_holds order he text.toUTF8.toList
    have hbytes : read.toUTF8.toList ++ text.toUTF8.toList = (read ++ text).toUTF8.toList := by
      simp only [Utf8.toUTF8_toList,String.toList_append,Utf8.encode_append]
    have hstate : (parser.feed (parser.feed parser.new read.toUTF8.toList).2 text.toUTF8.toList).2 =
        (parser.feed parser.new (read ++ text).toUTF8.toList).2 := by
      rw [← hbytes,Parser.feed_append]
    rw [hstate] at he₁
    have hread₁ (c : Char) (hc : c ∈ (read ++ text).toList) : printable c := by
      rw [String.toList_append,List.mem_append] at hc
      exact hc.elim (hread c) (htexts text List.mem_cons_self c)
    obtain ⟨e₂,read₂,node₂,hrest,hread₂,he₂⟩ :=
      ih he₁ hread₁ fun text ht => htexts text (List.mem_cons_of_mem _ ht)
    have hfirst : processTexts order (text::texts) e = processTexts order texts e₁ := forM_cons_ok hrun
    exact ⟨e₂,read₂,node₂,hfirst.trans hrest,hread₂,he₂⟩

/-! ### Comparison with the whole buffer -/

theorem outputNode_inj (first second : Bytes) :
    outputNode first = outputNode second ↔ Utf8.fromUtf8Lossy first = Utf8.fromUtf8Lossy second := by
  constructor
  · intro h
    have hprops : (∅ : Props).insert "content" (Utf8.fromUtf8Lossy first) =
        (∅ : Props).insert "content" (Utf8.fromUtf8Lossy second) := by
      simp only [outputNode,VNode.element.injEq,VElement.mk.injEq] at h
      exact h.2.1
    have hcontent := congrArg (fun props : Props => props["content"]?) hprops
    simpa using hcontent
  · intro h
    rw [outputNode,h]
    rfl

/-- What one byte decodes to on its own. -/
theorem fromUtf8Lossy_singleton (byte : UInt8) :
    Utf8.fromUtf8Lossy [byte] = String.ofList [(Utf8.decodeFirst byte []).1] := rfl

/-- A byte outside of ASCII is no character. -/
theorem decodeFirst_alone {byte : UInt8} (h : 128 ≤ byte.toNat) :
    (Utf8.decodeFirst byte []).1 = Utf8.replacement := by
  have hbyte : ¬byte < 0x80 := by
    rw [UInt8.lt_iff_toNat_lt]
    exact Nat.not_lt.mpr h
  unfold Utf8.decodeFirst
  rw [if_neg hbyte]
  split
  · rfl
  · split
    · rfl
    · split <;> rfl

theorem toNat_ofNat_ascii {n : ℕ} (h : n < 128) : (Char.ofNat n).toNat = n := by
  have hvalid : n.isValidChar := .inl (by omega)
  simp [Char.ofNat,hvalid,Char.toNat,Char.ofNatAux]

/-- The low byte of a character decodes to that character only in ASCII, and by chance
for the replacement character. -/
theorem decodeFirst_lowByte (c : Char) :
    (Utf8.decodeFirst (lowByte c) []).1 = c ↔ c.toNat < 128 ∨ c = Utf8.replacement := by
  have hlow : (lowByte c).toNat = c.toNat%256 := UInt8.toNat_ofNat
  by_cases hascii : c.toNat < 128
  · have hbyte : (lowByte c).toNat = c.toNat := by omega
    rw [Utf8.decodeFirst_one (by omega),hbyte]
    exact iff_of_true (Char.ofNat_toNat c) (.inl hascii)
  · by_cases hbyte : (lowByte c).toNat < 128
    · have hchar : (Char.ofNat (lowByte c).toNat).toNat = (lowByte c).toNat :=
        toNat_ofNat_ascii hbyte
      rw [Utf8.decodeFirst_one hbyte]
      refine iff_of_false (fun h => ?_) fun h => ?_
      · have hsame : (Char.ofNat (lowByte c).toNat).toNat = c.toNat := congrArg Char.toNat h
        omega
      · rcases h with h | rfl
        · exact hascii h
        · revert hbyte
          decide
    · rw [decodeFirst_alone (by omega)]
      exact ⟨fun h => .inr h.symm,fun h => (h.resolve_left hascii).symm⟩

/-- After these inputs the emulator has the same root as a renderer that is given the last
of them as a whole, the text element of that input. -/
def SameRoot (parser : Parser) (terminal : Terminal) (earlier : List String) (text : String) : Prop :=
  ∃ (e : Emulator parser) (p : PtyRenderer),
    processTexts order (earlier ++ [text]) (new parser terminal) = .ok () e ∧
    PtyRenderer.render order text.toUTF8.toList (PtyRenderer.new terminal) = .ok () p ∧
    e.renderer.renderer.root = p.renderer.root ∧
    p.renderer.root = .element ⟨"text",(∅ : Props).insert "content" text,∅,[]⟩

/-- A character is left of the text, the one that the low byte of its last character decodes to. -/
theorem sameRoot_iff_last {printable : Char → Prop} (hparser : parser.PrintsEach printable)
    {terminal : Terminal} (hterminal : terminal.Reliable) {earlier : List String}
    (hearlier : ∀ text ∈ earlier, ∀ c ∈ text.toList, printable c) {text : String} {start : List Char} {c : Char}
    (htext : text.toList = start ++ [c]) (hprintable : ∀ c ∈ text.toList, printable c) :
    SameRoot order parser terminal earlier text ↔ text.toList = [(Utf8.decodeFirst (lowByte c) []).1] := by
  have hstart : (new parser terminal).Holds (parser.feed parser.new ("" : String).toUTF8.toList).2 emptyRoot := by
    rw [Utf8.toUTF8_toList]
    exact ⟨rfl,new_holds hterminal,.inl rfl⟩
  obtain ⟨e₁,read,node,hbefore,hread,he₁⟩ :=
    processTexts_holds order hstart (fun c hc => by simp at hc) earlier hearlier
  obtain ⟨e₂,hinput,he₂⟩ := processInput_holds order he₁ text.toUTF8.toList
  rw [hparser.feed_next hread hprintable,htext,shown_prints] at he₂
  have hlast : processTexts order [text] e₁ = processTexts order [] e₂ := forM_cons_ok hinput
  have hall : processTexts order (earlier ++ [text]) (new parser terminal) = processTexts order [text] e₁ :=
    forM_append_ok hbefore
  have hrun : processTexts order (earlier ++ [text]) (new parser terminal) = .ok () e₂ := hall.trans hlast
  obtain ⟨p,hrender,hp⟩ := run_holds order (new_holds hterminal) (.inl rfl) (.render text.toUTF8.toList)
  have hlossy : Utf8.fromUtf8Lossy text.toUTF8.toList = text := by
    rw [Utf8.toUTF8_toList,Utf8.fromUtf8Lossy,Utf8.decodeFrom_encode,String.ofList_toList]
  have hroot : p.renderer.root = .element ⟨"text",(∅ : Props).insert "content" text,∅,[]⟩ := by
    rw [hp.root,outputNode,OutputCall.payload,hlossy]
  have hsame : e₂.renderer.renderer.root = p.renderer.root ↔
      text.toList = [(Utf8.decodeFirst (lowByte c) []).1] := by
    rw [he₂.renderer.root,hp.root,outputNode_inj,OutputCall.payload,hlossy,fromUtf8Lossy_singleton]
    constructor
    · intro h
      rw [← h,String.toList_ofList]
    · intro h
      rw [← h,String.ofList_toList]
  rw [← hsame]
  constructor
  · rintro ⟨e',p',hrun',hrender',hsame',-⟩
    obtain rfl : e₂ = e' := by
      rw [hrun] at hrun'
      cases hrun'
      rfl
    obtain rfl : p = p' := by
      have h : EStateM.Result.ok () p = .ok () p' := hrender.symm.trans hrender'
      cases h
      rfl
    exact hsame'
  · intro hsame'
    exact ⟨e₂,p,hrun,hrender,hsame',hroot⟩

/-- The two roots are the same exactly for a single character of ASCII, and for a single
replacement character: each character is cut to a byte, decoded alone and put in the
place of the one before it. -/
theorem sameRoot_iff {printable : Char → Prop} (hparser : parser.PrintsEach printable)
    {terminal : Terminal} (hterminal : terminal.Reliable) {earlier : List String}
    (hearlier : ∀ text ∈ earlier, ∀ c ∈ text.toList, printable c) {text : String} (hne : text ≠ "")
    (hprintable : ∀ c ∈ text.toList, printable c) : SameRoot order parser terminal earlier text ↔
      ∃ c, text.toList = [c] ∧ (c.toNat < 128 ∨ c = '\uFFFD') := by
  have hchars : text.toList ≠ [] := fun h => hne (String.toList_eq_nil_iff.mp h)
  have htext := (List.dropLast_append_getLast hchars).symm
  rw [sameRoot_iff_last order hparser hterminal hearlier htext hprintable]
  generalize text.toList.getLast hchars = last at htext
  constructor
  · intro h
    rw [htext] at h
    have hlast : last = (Utf8.decodeFirst (lowByte last) []).1 := by
      have := congrArg List.getLast? h
      simpa using this
    refine ⟨last,?_,(decodeFirst_lowByte last).mp hlast.symm⟩
    rw [htext,h,← hlast]
  · rintro ⟨c,hc,hlow⟩
    have hlast : last = c := by
      rw [hc] at htext
      have := congrArg List.getLast? htext
      simpa using this.symm
    rw [hc,hlast,(decodeFirst_lowByte c).mpr hlow]

/-! ### A parser of plain text -/

def isPlain (c : Char) : Prop := 0x20 ≤ c.toNat ∧ c.toNat ≤ 0x7E

/-- Outside of all sequences a parser prints the visible characters of ASCII and executes
the rest. -/
def plainAdvance (byte : UInt8) : List Perform × Unit :=
  if 0x20 ≤ byte ∧ byte ≤ 0x7E then ([.print (Char.ofNat byte.toNat)],()) else ([.execute],())

def plainParser : Parser where
  State := Unit
  new := ()
  advance _ := plainAdvance

theorem plainParser_feed (text : List Char) (h : ∀ c ∈ text, isPlain c) :
    (plainParser.feed () (Utf8.encode text)).1 = text.map .print := by
  induction text with
  | nil => rfl
  | cons c text ih =>
    obtain ⟨hlow,hhigh⟩ := h c List.mem_cons_self
    have hbyte : (UInt8.ofNat c.toNat).toNat = c.toNat := Utf8.toNat_ofNat (by omega)
    have hbytes : String.utf8EncodeChar c = [UInt8.ofNat c.toNat] := Utf8.encodeChar_ascii (by omega)
    have hplain : 0x20 ≤ UInt8.ofNat c.toNat ∧ UInt8.ofNat c.toNat ≤ 0x7E := by
      rw [UInt8.le_iff_toNat_le,UInt8.le_iff_toNat_le,hbyte]
      exact ⟨hlow,hhigh⟩
    have hadvance : plainAdvance (UInt8.ofNat c.toNat) = ([.print c],()) := by
      rw [plainAdvance,if_pos hplain,hbyte,Char.ofNat_toNat]
    have hfeed (rest : Bytes) : (plainParser.feed () (UInt8.ofNat c.toNat::rest)).1 =
        (plainAdvance (UInt8.ofNat c.toNat)).1 ++ (plainParser.feed () rest).1 := rfl
    have hrest := ih fun c hc => h c (List.mem_cons_of_mem _ hc)
    rw [Utf8.encode_cons,hbytes,List.singleton_append,hfeed,hadvance,hrest]
    rfl

theorem plainParser_printsEach : plainParser.PrintsEach isPlain := by
  intro text h
  rw [Utf8.toUTF8_toList]
  exact plainParser_feed text.toList h

theorem sameRoot_iff_letter : SameRoot HashOrder.sorted plainParser ⟨[],0,fun _ => none⟩ ["ls"] "a" ↔
    ∃ c, ("a" : String).toList = [c] ∧ (c.toNat < 128 ∨ c = '\uFFFD') :=
  sameRoot_iff HashOrder.sorted plainParser_printsEach (fun _ => rfl)
    (by simp [isPlain]) (by decide) (by simp [isPlain])

/-- Of two characters only the second is left. -/
theorem not_sameRoot : plainParser.PrintsEach isPlain ∧ (∀ c ∈ ("ls" : String).toList, isPlain c) ∧
    ¬SameRoot HashOrder.sorted plainParser ⟨[],0,fun _ => none⟩ [] "ls" := by
  have hplain : ∀ c ∈ ("ls" : String).toList, isPlain c := by simp [isPlain]
  refine ⟨plainParser_printsEach,hplain,fun h => ?_⟩
  have hlast := (sameRoot_iff_last HashOrder.sorted plainParser_printsEach (fun _ => rfl) (by simp)
    (show ("ls" : String).toList = ['l'] ++ ['s'] by decide) hplain).mp h
  simp at hlast

end Emulator
end VirtualDom
end NodeRustPty
