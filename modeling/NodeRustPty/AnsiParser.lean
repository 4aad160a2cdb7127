import NodeRustPty.ControlSequences
import NodeRustPty.Utf8Encoding

/-! `ANSIParser` of `utils/ansi_parser.rs` and `AnsiParser` of `virtual_dom/input_handler.rs`:
what a terminal parser calls back with is written out again for an output handler. -/
namespace NodeRustPty

open ControlSequences

/-! ### The callbacks -/

/-- Each value of one parameter, after the semicolon that parts it from the one before. -/
def pushParam (sequence : Bytes) (i : ℕ) (param : List UInt16) : Bytes :=
  param.foldl (fun sequence p => sequence ++ (toString p).toUTF8.toList)
    (if i > 0 then sequence ++ [0x3B] else sequence)

/-- The bytes that `csi_dispatch` and `hook` build alike. -/
def dispatchSequence (introducer : UInt8) (params : List (List UInt16)) (intermediates : Bytes)
    (command : Char) : Bytes :=
  let pushed := params.zipIdx.foldl (fun sequence entry => pushParam sequence entry.2 entry.1) [0x1B,introducer]
  let pushed := if !intermediates.isEmpty then pushed ++ intermediates else pushed
  pushed ++ [UInt8.ofNat command.toNat]

/-- The slices that one callback hands to `handle_output`; a character is cast to its low byte. -/
def ANSIParser.print (c : Char) : List Bytes := [[UInt8.ofNat c.toNat]]

def VirtualDom.AnsiParser.print (c : Char) : List Bytes := [[UInt8.ofNat c.toNat]]

def ANSIParser.csiDispatch (params : List (List UInt16)) (intermediates : Bytes) (_ignore : Bool)
    (command : Char) : List Bytes :=
  [dispatchSequence 0x5B params intermediates command]

def ANSIParser.hook (params : List (List UInt16)) (intermediates : Bytes) (_ignore : Bool)
    (byte : Char) : List Bytes :=
  [dispatchSequence 0x50 params intermediates byte]

def VirtualDom.AnsiParser.csiDispatch (params : List (List UInt16)) (intermediates : Bytes) (_ignore : Bool)
    (command : Char) : List Bytes :=
  [dispatchSequence 0x5B params intermediates command]

example : VirtualDom.AnsiParser.csiDispatch [] [] false 'C' = [[0x1B,0x5B,0x43]] := by decide

/-! ### The bytes of a dispatch -/

/-- A parameter as it is pushed: its values, one right after the other. -/
def flatParam (param : List UInt16) : Bytes := param.flatMap fun p => decimal p.toNat

theorem toString_bytes (p : UInt16) : (toString p).toUTF8.toList = decimal p.toNat := by
  have htext : (toString p).toList = Nat.toDigits 10 p.toNat := Nat.toList_repr
  rw [Utf8.toUTF8_toList,htext,decimal,Utf8.encode,List.flatMap_def]
  have hdigit : ∀ c ∈ Nat.toDigits 10 p.toNat, String.utf8EncodeChar c = [UInt8.ofNat c.toNat] := by
    intro c hc
    obtain ⟨-,-,hhigh⟩ := toNat_digit (Nat.isDigit_of_mem_toDigits (by norm_num) (by norm_num) hc)
    exact Utf8.encodeChar_ascii (by omega)
  rw [List.map_congr_left hdigit]
  induction Nat.toDigits 10 p.toNat with
  | nil => rfl
  | cons c digits ih => rw [List.map_cons,List.flatten_cons,ih,List.map_cons,List.singleton_append]

theorem pushParam_eq (sequence : Bytes) (i : ℕ) (param : List UInt16) :
    pushParam sequence i param = (if i > 0 then sequence ++ [0x3B] else sequence) ++ flatParam param := by
  have hfold (before : Bytes) : param.foldl (fun sequence p => sequence ++ (toString p).toUTF8.toList) before =
      before ++ flatParam param := by
    induction param generalizing before with
    | nil => simp [flatParam]
    | cons p param ih => rw [List.foldl_cons,ih,toString_bytes,flatParam,flatParam,List.flatMap_cons,List.append_assoc]
  exact hfold _

theorem foldl_pushParam (params : List (List UInt16)) (i : ℕ) (sequence : Bytes) :
    (params.zipIdx (i+1)).foldl (fun sequence entry => pushParam sequence entry.2 entry.1) sequence =
      sequence ++ params.flatMap fun param => 0x3B::flatParam param := by
  induction params generalizing i sequence with
  | nil => simp
  | cons param params ih =>
    rw [List.zipIdx_cons,List.foldl_cons,ih,pushParam_eq,if_pos (Nat.succ_pos i),List.flatMap_cons]
    simp only [List.append_assoc,List.nil_append,List.cons_append]

theorem intercalate_cons (separator : UInt8) (piece : Bytes) (pieces : List Bytes) :
    [separator].intercalate (piece::pieces) = piece ++ pieces.flatMap fun next => separator::next := by
  induction pieces generalizing piece with
  | nil => simp
  | cons next pieces ih =>
    rw [List.intercalate_cons_cons,ih,List.flatMap_cons]
    simp only [List.append_assoc,List.nil_append,List.cons_append]

/-- Semicolons stand between the parameters, and nothing between the values of one; the
intermediates come last, with the marker that vte keeps in front of them. -/
theorem dispatchSequence_eq (introducer : UInt8) (params : List (List UInt16)) (intermediates : Bytes)
    (command : Char) : dispatchSequence introducer params intermediates command =
      0x1B::introducer::([0x3B].intercalate (params.map flatParam) ++ intermediates ++ [UInt8.ofNat command.toNat]) := by
  have hintermediates (pushed : Bytes) :
      (if !intermediates.isEmpty then pushed ++ intermediates else pushed) = pushed ++ intermediates := by
    cases intermediates <;> simp
  rw [dispatchSequence]
  simp only [hintermediates]
  cases params with
  | nil => simp
  | cons param params =>
    have hfirst : pushParam [0x1B,introducer] 0 param = [0x1B,introducer] ++ flatParam param := by
      rw [pushParam_eq,if_neg (lt_irrefl 0)]
    rw [List.zipIdx_cons,List.foldl_cons,hfirst,foldl_pushParam,List.map_cons,intercalate_cons,List.flatMap_map]
    simp only [List.append_assoc,List.cons_append,List.nil_append]

/-! ### Which dispatches are read back -/

/-- The bytes are one sequence of this introducer, and it says what was dispatched. -/
def ReadsBack (introducer : UInt8) (slices : List Bytes) (d : Dispatched) : Prop :=
  decode introducer slices.flatten = some d.toSequence

/-- At least one parameter, none of them with subparameters, and no private marker. -/
structure Plain (d : Dispatched) : Prop where
  params_ne_nil : d.params ≠ []
  single : ∀ param ∈ d.params, param.length = 1
  unmarked : d.marker = none

variable {d : Dispatched} {introducer : UInt8}

theorem isParameter_of_mem_flat {params : List (List UInt16)} {byte : UInt8}
    (h : byte ∈ [0x3B].intercalate (params.map flatParam)) : isParameter byte = true := by
  rcases mem_intercalate h with rfl | ⟨piece,hpiece,hbyte⟩
  · decide
  · obtain ⟨param,-,rfl⟩ := List.mem_map.mp hpiece
    obtain ⟨p,-,hp⟩ := List.mem_flatMap.mp hbyte
    have hrange := mem_decimal hp
    exact isParameter_iff.mpr (by omega)

/-- Whatever a parameter had for subparameters, one value is read. -/
theorem parseParams_flat {params : List (List UInt16)} (hne : params ≠ []) :
    parseParams ([0x3B].intercalate (params.map flatParam)) = params.map fun param => [parseValue (flatParam param)] := by
  have hrange (param : List UInt16) : ∀ byte ∈ flatParam param, byte.toNat ≤ 0x39 := by
    intro byte hbyte
    obtain ⟨p,-,hp⟩ := List.mem_flatMap.mp hbyte
    exact (mem_decimal hp).2
  rw [parseParams_intercalate (by simpa using hne),List.map_map]
  · refine List.map_congr_left fun param _ => ?_
    have hcolon : (0x3A : UInt8) ∉ flatParam param := fun h => absurd (hrange param _ h) (by decide)
    rw [Function.comp_apply,List.splitOn_eq_singleton hcolon,List.map_singleton]
  · intro piece hpiece hbyte
    obtain ⟨param,-,rfl⟩ := List.mem_map.mp hpiece
    exact absurd (hrange param _ hbyte) (by decide)

theorem toNat_command (final : UInt8) : UInt8.ofNat (Char.ofNat final.toNat).toNat = final := by
  have hvalid : final.toNat.isValidChar := .inl (by have := final.toNat_lt; omega)
  rw [Char.ofNat,dif_pos hvalid]
  exact UInt8.ofNat_toNat

theorem flat_ne_nil (hne : d.params ≠ []) : [0x3B].intercalate (d.params.map flatParam) ≠ [] := by
  obtain ⟨param,params,hparams⟩ := List.exists_cons_of_ne_nil hne
  have hparam : param ≠ [] := d.params_nonempty param (by simp [hparams])
  obtain ⟨p,rest,rfl⟩ := List.exists_cons_of_ne_nil hparam
  rw [hparams,List.map_cons,intercalate_cons,flatParam,List.flatMap_cons]
  simp [decimal_ne_nil]

/-- With a value for each parameter the flat text is the grammar's. -/
theorem flat_eq_renderParams {params : List (List UInt16)} (hsingle : ∀ param ∈ params, param.length = 1) :
    [0x3B].intercalate (params.map flatParam) = renderParams params := by
  have hparam : ∀ param ∈ params, flatParam param = [0x3A].intercalate (param.map fun p => decimal p.toNat) := by
    intro param hparam
    obtain ⟨p,rfl⟩ := List.length_eq_one_iff.mp (hsingle param hparam)
    simp [flatParam]
  rw [renderParams,List.map_congr_left hparam]

/-- A plain dispatch is written as the grammar writes it. -/
theorem dispatchSequence_eq_encode (introducer : UInt8) (h : Plain d) :
    dispatchSequence introducer d.params (d.marker.toList ++ d.intermediates) (Char.ofNat d.final.toNat) =
      encode introducer d.toSequence := by
  rw [dispatchSequence_eq,toNat_command,flat_eq_renderParams h.single,encode,h.unmarked]
  rfl

/-- Parameters that are read back flat had one value each. -/
theorem single_of_parseParams_flat (h : parseParams ([0x3B].intercalate (d.params.map flatParam)) = d.params) :
    d.params ≠ [] ∧ ∀ param ∈ d.params, param.length = 1 := by
  have hne : d.params ≠ [] := by
    intro hnil
    rw [hnil,List.map_nil,List.intercalate_nil,parseParams_nil] at h
    exact List.cons_ne_nil _ _ h
  rw [parseParams_flat hne] at h
  refine ⟨hne,fun param hparam => ?_⟩
  rw [← h] at hparam
  obtain ⟨before,-,rfl⟩ := List.mem_map.mp hparam
  rfl

/-- The marker stands after the parameters, where the grammar has no place for it. -/
theorem not_decode_of_marker {marker : UInt8} (hmarker : d.marker = some marker) (hne : d.params ≠ []) (tail : Bytes) :
    decode introducer (0x1B::introducer::([0x3B].intercalate (d.params.map flatParam) ++ marker::tail)) = none := by
  have hbody : ∀ byte ∈ [0x3B].intercalate (d.params.map flatParam), isParameter byte = true := fun _ hbyte =>
    isParameter_of_mem_flat hbyte
  obtain ⟨byte,rest,hrest⟩ := List.exists_cons_of_ne_nil (flat_ne_nil hne)
  rw [hrest] at hbody ⊢
  rw [List.cons_append,decode_unmarked introducer (not_isMarker_of_parameter (hbody byte List.mem_cons_self)),← List.cons_append]
  exact decodeAfterMarker_of_marker hbody (d.marker_range marker hmarker)

theorem dispatchSequence_readsBack_iff (introducer : UInt8) (d : Dispatched) :
    ReadsBack introducer [dispatchSequence introducer d.params (d.marker.toList ++ d.intermediates)
      (Char.ofNat d.final.toNat)] d ↔ Plain d := by
  rw [ReadsBack,List.flatten_singleton]
  constructor
  · intro h
    rw [dispatchSequence_eq,toNat_command] at h
    cases hmarker : d.marker with
    | none =>
      have hdecode := decode_sequence introducer none ([0x3B].intercalate (d.params.map flatParam)) (by simp)
        (fun _ hbyte => isParameter_of_mem_flat hbyte) d.intermediates_range d.final_range
      rw [hmarker,Option.toList_none,List.nil_append] at h
      rw [Option.toList_none,List.nil_append,h,Option.some.injEq] at hdecode
      obtain ⟨hne,hsingle⟩ := single_of_parseParams_flat (congrArg Sequence.params hdecode).symm
      exact ⟨hne,hsingle,hmarker⟩
    | some marker =>
      by_cases hne : d.params = []
      · -- without parameters the marker is read, and with it a parameter that was not there
        have hdecode := decode_sequence introducer d.marker [] d.marker_range (by simp)
          d.intermediates_range d.final_range
        rw [List.append_nil] at hdecode
        rw [hne,List.map_nil,List.intercalate_nil,List.nil_append,hdecode,parseParams_nil,Option.some.injEq] at h
        have hparams := congrArg Sequence.params h
        simp [hne] at hparams
      · rw [hmarker,Option.toList_some,List.append_assoc,List.append_assoc,List.singleton_append,
          not_decode_of_marker hmarker hne] at h
        exact absurd h.symm (Option.some_ne_none _)
  · intro h
    rw [dispatchSequence_eq_encode introducer h]
    exact decode_encode introducer d h.params_ne_nil

/-- The three encoders are read back at the same dispatches. -/
theorem dispatches_readBack_iff (d : Dispatched) (ignore : Bool) :
    (ReadsBack 0x5B (ANSIParser.csiDispatch d.params (d.marker.toList ++ d.intermediates) ignore
      (Char.ofNat d.final.toNat)) d ↔ Plain d) ∧
    (ReadsBack 0x50 (ANSIParser.hook d.params (d.marker.toList ++ d.intermediates) ignore
      (Char.ofNat d.final.toNat)) d ↔ Plain d) ∧
    (ReadsBack 0x5B (VirtualDom.AnsiParser.csiDispatch d.params (d.marker.toList ++ d.intermediates) ignore
      (Char.ofNat d.final.toNat)) d ↔ Plain d) :=
  ⟨dispatchSequence_readsBack_iff 0x5B d,dispatchSequence_readsBack_iff 0x50 d,dispatchSequence_readsBack_iff 0x5B d⟩

/-- `ESC [ ? 25 h`, which shows the cursor. -/
def showCursor : Dispatched where
  params := [[25]]
  marker := some 0x3F
  intermediates := []
  final := 0x68
  params_nonempty := by simp
  marker_range := by simp [isMarker]
  intermediates_range := by simp
  final_range := rfl

/-- It is written as `ESC [ 25 ? h`. -/
theorem dispatches_misread : ¬∀ (d : Dispatched) (ignore : Bool),
    ReadsBack 0x5B (ANSIParser.csiDispatch d.params (d.marker.toList ++ d.intermediates) ignore
      (Char.ofNat d.final.toNat)) d ∧
    ReadsBack 0x50 (ANSIParser.hook d.params (d.marker.toList ++ d.intermediates) ignore
      (Char.ofNat d.final.toNat)) d ∧
    ReadsBack 0x5B (VirtualDom.AnsiParser.csiDispatch d.params (d.marker.toList ++ d.intermediates) ignore
      (Char.ofNat d.final.toNat)) d := by
  intro h
  obtain ⟨hcsi,-,-⟩ := h showCursor false
  have hplain : Plain showCursor := (dispatchSequence_readsBack_iff 0x5B showCursor).mp hcsi
  exact Option.some_ne_none _ hplain.unmarked

/-! ### Printed text -/

/-- The slices are the text in UTF-8, and it is decoded from them. -/
def Recovers (slices : List Bytes) (text : String) : Prop :=
  slices.flatten = text.toUTF8.toList ∧ Utf8.fromUtf8Lossy slices.flatten = text

theorem flatMap_print_recovers_iff (text : String) :
    Recovers (text.toList.flatMap ANSIParser.print) text ↔ ∀ c ∈ text.toList, c.toNat < 0x80 := by
  have hflatten : (text.toList.flatMap ANSIParser.print).flatten = text.toList.map fun c => UInt8.ofNat c.toNat := by
    rw [List.flatMap_def]
    induction text.toList with
    | nil => rfl
    | cons c text ih =>
      rw [List.map_cons,List.flatten_cons,List.flatten_append,ih,List.map_cons]
      rfl
  rw [Recovers,hflatten,Utf8.toUTF8_toList,← Utf8.map_ofNat_eq_encode_iff]
  constructor
  · exact And.left
  · intro h
    refine ⟨h,?_⟩
    rw [h,Utf8.fromUtf8Lossy,Utf8.decodeFrom_encode,String.ofList_toList]

/-- Both parsers print ASCII only. -/
theorem prints_recover_iff (text : String) :
    (Recovers (text.toList.flatMap ANSIParser.print) text ↔ ∀ c ∈ text.toList, c.toNat < 0x80) ∧
    (Recovers (text.toList.flatMap VirtualDom.AnsiParser.print) text ↔ ∀ c ∈ text.toList, c.toNat < 0x80) :=
  ⟨flatMap_print_recovers_iff text,flatMap_print_recovers_iff text⟩

/-- `é` is passed on as a byte that stands for no character. -/
theorem prints_misencode : ¬∀ text : String, Recovers (text.toList.flatMap ANSIParser.print) text ∧
    Recovers (text.toList.flatMap VirtualDom.AnsiParser.print) text := by
  intro h
  have hletter := (flatMap_print_recovers_iff "é").mp (h "é").1
  have hlow := hletter 'é' (by simp)
  exact absurd hlow (by decide)

end NodeRustPty
