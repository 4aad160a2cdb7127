import NodeRustPty.ShellQuoting
import NodeRustPty.ShortWrites

/-! The lines that `set_env` writes to the shell, on Linux, on macOS and through the trait of
the multiplexer, as the shell reads them. -/
namespace NodeRustPty

open ShellQuoting ProcessM

/-- `set_env` of `platform/macos.rs`. -/
def Macos.setEnv (key value : String) : ProcessM Unit := do
  if ← PtyProcess.isRunning then
    PtyProcess.setVar key value
    discard (PtyProcess.writeData s!"export {key}={value}\n".toUTF8.toList)
  else fail ⟨none,"PTY process is not running"⟩

/-- `set_env` of the trait that the multiplexer calls, for a process. -/
def PtyProcessInterface.setEnv (key value : String) : ProcessM Unit :=
  discard (PtyProcess.writeData ("export " ++ key ++ "=\"" ++ value ++ "\"\n").toUTF8.toList)

section Sends

variable {α : Type}

/-- In some run the method writes this. -/
def Sends (method : ProcessM α) (process : PtyProcess) (data : Bytes) : Prop :=
  ∃ (trace : List (Prog.Event Sys Sys.Res)) (result : Except IoError α × PtyProcess) (fd : ℤ) (ret : Ret),
    (method process).Traces trace result ∧ ⟨.write fd data,ret⟩ ∈ trace

/-- The method can write something, and a shell that reads what it writes makes the one export. -/
def Exports (grammar : Grammar) (method : ProcessM α) (process : PtyProcess) (name value : String) : Prop :=
  (∃ data, Sends method process data) ∧ ∀ data, Sends method process data →
    ReadsAs grammar (Utf8.decodeFrom 0 data) "export".toList name.toList value.toList

variable {method : ProcessM α} {process : PtyProcess} {data line : Bytes}

/-- What a method writes before it goes on without a call. -/
theorem sends_discard_iff : Sends (discard method) process data ↔ Sends method process data := by
  constructor
  · rintro ⟨trace,result,fd,ret,htrace,hmem⟩
    change ((method process).bind _).Traces trace result at htrace
    obtain ⟨first,⟨middle | middle,process'⟩,second,rfl,hfirst,hsecond⟩ := Prog.traces_bind.mp htrace
    all_goals
      obtain ⟨rfl,-⟩ := Prog.traces_pure.mp hsecond
      rw [List.append_nil] at hmem
      exact ⟨first,_,fd,ret,hfirst,hmem⟩
  · rintro ⟨trace,⟨result | result,process'⟩,fd,ret,htrace,hmem⟩
    · exact ⟨trace ++ [],(.error result,process'),fd,ret,htrace.bind (Prog.Traces.pure _),List.mem_append_left _ hmem⟩
    · exact ⟨trace ++ [],(.ok (),process'),fd,ret,htrace.bind (Prog.Traces.pure _),List.mem_append_left _ hmem⟩

theorem sends_writeData_iff : Sends (PtyProcess.writeData line) process data ↔ data = line := by
  rw [Sends,PtyProcess.writeData_eq]
  constructor
  · rintro ⟨trace,result,fd,ret,htrace,hmem⟩
    obtain ⟨res,rest,rfl,hrest⟩ := Prog.traces_call.mp htrace
    obtain ⟨rfl,-⟩ := Prog.traces_pure.mp hrest
    cases List.mem_singleton.mp hmem
    rfl
  · rintro rfl
    exact ⟨_,_,process.masterFd,⟨0,⟨none,""⟩⟩,.call _ (.pure _),List.mem_singleton_self _⟩

theorem sends_line (process : PtyProcess) (line : Bytes) : Sends (PtyProcess.writeData line) process line :=
  sends_writeData_iff.mpr rfl

end Sends

/-- The answer of `is_running`. -/
def runningResult (ret : Ret) : Except IoError Bool :=
  if ret.value = 0 then .ok true
  else if ret.value = -1 then
    if ret.error.rawOsError = some esrch then .ok false else .error ret.error
  else .ok false

theorem isRunning_eq (process : PtyProcess) : PtyProcess.isRunning process =
    .call (.kill process.pid 0) fun (ret : Ret) => .pure (runningResult ret,process) := by
  refine congrArg _ (funext fun (ret : Ret) => ?_)
  change (if ret.value = 0 then (pure true : ProcessM Bool)
    else if ret.value = -1 then
      if ret.error.rawOsError = some esrch then pure false else fail ret.error
    else pure false) process = _
  rw [runningResult]
  split_ifs <;> rfl

section SetEnv

variable {key value : String} {process : PtyProcess} {data : Bytes}

theorem setEnv_running {ret : Ret} (hret : runningResult ret = .ok true) (hset : ¬PtyProcess.unsettable key value)
    {trace : List (Prog.Event Sys Sys.Res)} {result : Except IoError Unit × PtyProcess}
    (h : (discard (PtyProcess.writeData s!"export {key}={value}\n".toUTF8.toList) process).Traces trace result) :
    (PtyProcess.setEnv key value process).Traces
      (⟨.kill process.pid 0,ret⟩::⟨.setVar key value,()⟩::trace) result := by
  have hsetVar : PtyProcess.setVar key value = sys (.setVar key value) := if_neg hset
  change (PtyProcess.isRunning process >>= _).Traces _ _
  rw [isRunning_eq]
  refine Prog.traces_call.mpr ⟨ret,_,rfl,?_⟩
  change ((Prog.pure (runningResult ret,process) : SysProg _) >>= _).Traces _ _
  rw [hret]
  change (PtyProcess.setVar key value process >>= _).Traces _ _
  rw [hsetVar]
  exact Prog.traces_call.mpr ⟨(),_,rfl,h⟩

theorem sends_setEnv_iff : Sends (PtyProcess.setEnv key value) process data ↔
    ¬PtyProcess.unsettable key value ∧ data = s!"export {key}={value}\n".toUTF8.toList := by
  constructor
  · rintro ⟨trace,result,fd,ret,htrace,hmem⟩
    change (PtyProcess.isRunning process >>= _).Traces _ _ at htrace
    rw [isRunning_eq] at htrace
    obtain ⟨answer,rest,rfl,hrest⟩ := Prog.traces_call.mp htrace
    have hlater : ⟨.write fd data,ret⟩ ∈ rest := by
      rcases List.mem_cons.mp hmem with heq | hlater
      · cases heq
      · exact hlater
    change ((Prog.pure (runningResult answer,process) : SysProg _) >>= _).Traces _ _ at hrest
    cases hrunning : runningResult answer with
    | error e =>
      rw [hrunning] at hrest
      obtain ⟨rfl,-⟩ := Prog.traces_pure.mp hrest
      exact absurd hlater (by simp)
    | ok running =>
      rw [hrunning] at hrest
      cases running with
      | false =>
        obtain ⟨rfl,-⟩ := Prog.traces_pure.mp hrest
        exact absurd hlater (by simp)
      | true =>
        change (PtyProcess.setVar key value process >>= _).Traces _ _ at hrest
        by_cases hset : PtyProcess.unsettable key value
        · rw [PtyProcess.setVar,if_pos hset] at hrest
          exact absurd hrest Prog.traces_panic
        · rw [PtyProcess.setVar,if_neg hset] at hrest
          obtain ⟨_,written,rfl,hwritten⟩ := Prog.traces_call.mp hrest
          have hwrite : ⟨.write fd data,ret⟩ ∈ written := by
            rcases List.mem_cons.mp hlater with heq | hwrite
            · cases heq
            · exact hwrite
          exact ⟨hset,sends_writeData_iff.mp (sends_discard_iff.mp ⟨written,result,fd,ret,hwritten,hwrite⟩)⟩
  · rintro ⟨hset,rfl⟩
    obtain ⟨trace,result,fd,ret,htrace,hmem⟩ := sends_discard_iff.mpr (sends_line process _)
    have hrunning : runningResult ⟨0,⟨none,""⟩⟩ = .ok true := rfl
    exact ⟨_,result,fd,ret,setEnv_running hrunning hset htrace,List.mem_cons_of_mem _ (List.mem_cons_of_mem _ hmem)⟩

end SetEnv

/-! ### Reading the line -/

theorem isUtility_export : IsUtility "export".toList := by
  have hletters : "export".toList = ['e','x','p','o','r','t'] := by simp
  rw [hletters]
  exact ⟨nofun,by simp [special],by simp⟩

section Exports

variable {method : ProcessM Unit} {process : PtyProcess} {grammar : Grammar} {name value : String}

/-- A method that writes one line or nothing. -/
theorem exports_iff {line : String} {possible : Prop}
    (h : ∀ data, Sends method process data ↔ possible ∧ data = line.toUTF8.toList) :
    Exports grammar method process name value ↔
      possible ∧ ReadsAs grammar line.toList "export".toList name.toList value.toList := by
  have hline : Utf8.decodeFrom 0 line.toUTF8.toList = line.toList := by
    rw [Utf8.toUTF8_toList,Utf8.decodeFrom_encode]
  simp only [Exports,h]
  constructor
  · rintro ⟨⟨data,hpossible,hdata⟩,hall⟩
    have hreads := hall data ⟨hpossible,hdata⟩
    rw [hdata,hline] at hreads
    exact ⟨hpossible,hreads⟩
  · rintro ⟨hpossible,hreads⟩
    refine ⟨⟨_,hpossible,rfl⟩,?_⟩
    rintro data ⟨-,rfl⟩
    rw [hline]
    exact hreads

/-- A name and a value without a NUL are what an environment can hold. -/
theorem settable_of_name (hname : isName name.toList = true) (hvalue : ∀ c ∈ value.toList, c ∉ special) :
    ¬PtyProcess.unsettable name value := by
  obtain ⟨hne,hchars⟩ := isName_spec hname
  rintro (rfl | hequals | hnul | hnul)
  · exact hne rfl
  · exact (ordinary_of_name (hchars _ hequals)).2.2 rfl
  · exact (ordinary_of_name (hchars _ hnul)).1 (by decide)
  · exact hvalue _ hnul (by decide)

theorem exports_setEnv_iff (hname : isName name.toList = true) :
    Exports grammar (PtyProcess.setEnv name value) process name value ↔
      (∀ c ∈ value.toList, c ∉ special) ∧ NoTilde true value.toList := by
  have hline : s!"export {name}={value}\n".toList =
      "export".toList ++ ' '::(name.toList ++ '='::(value.toList ++ ['\n'])) := by
    simp [toString]
  rw [exports_iff fun data => sends_setEnv_iff,hline,readsAs_bare_iff isUtility_export hname]
  exact and_iff_right_of_imp fun h => settable_of_name hname h.1

theorem exports_interface_iff (hname : isName name.toList = true) :
    Exports grammar (PtyProcessInterface.setEnv name value) process name value ↔ Quotable value.toList := by
  have hline : ("export " ++ name ++ "=\"" ++ value ++ "\"\n").toList =
      "export".toList ++ ' '::(name.toList ++ '=':: '"'::(value.toList ++ ['"','\n'])) := by
    simp
  have hsends (data : Bytes) : Sends (PtyProcessInterface.setEnv name value) process data ↔
      True ∧ data = ("export " ++ name ++ "=\"" ++ value ++ "\"\n").toUTF8.toList := by
    rw [true_and]
    exact sends_discard_iff.trans sends_writeData_iff
  rw [exports_iff hsends,hline,true_and,readsAs_quoted_iff isUtility_export hname]

/-- For which values each `set_env` has the shell set the variable to the value. -/
theorem setEnv_exports_iff (grammar : Grammar) (process : PtyProcess) (name value : String)
    (hname : isName name.toList = true) :
    (Exports grammar (PtyProcess.setEnv name value) process name value ↔
      (∀ c ∈ value.toList, c ∉ special) ∧ NoTilde true value.toList) ∧
    (Exports grammar (Macos.setEnv name value) process name value ↔
      (∀ c ∈ value.toList, c ∉ special) ∧ NoTilde true value.toList) ∧
    (Exports grammar (PtyProcessInterface.setEnv name value) process name value ↔ Quotable value.toList) :=
  ⟨exports_setEnv_iff hname,exports_setEnv_iff hname,exports_interface_iff hname⟩

theorem setEnv_exports_letter : isName "A".toList = true ∧
    Exports ⟨fun _ => none⟩ (PtyProcess.setEnv "A" "b") ⟨3,7,"/bin/bash"⟩ "A" "b" ∧
    Exports ⟨fun _ => none⟩ (Macos.setEnv "A" "b") ⟨3,7,"/bin/zsh"⟩ "A" "b" ∧
    Exports ⟨fun _ => none⟩ (PtyProcessInterface.setEnv "A" "b") ⟨3,7,"/bin/bash"⟩ "A" "b" := by
  have hname : isName "A".toList = true := by simp [isName]
  have hplain : (∀ c ∈ "b".toList, c ∉ special) ∧ NoTilde true "b".toList := by simp [special,NoTilde]
  have hquotable : Quotable "b".toList := by simp [Quotable,Kept]
  exact ⟨hname,(setEnv_exports_iff _ _ "A" "b" hname).1.mpr hplain,
    (setEnv_exports_iff _ _ "A" "b" hname).2.1.mpr hplain,
    (setEnv_exports_iff _ _ "A" "b" hname).2.2.mpr hquotable⟩

/-- With blanks and quotation marks in the value none of them does. -/
theorem setEnv_misquotes :
    ¬Exports ⟨fun _ => none⟩ (PtyProcess.setEnv "A" "a\" b=\"") ⟨3,7,"/bin/bash"⟩ "A" "a\" b=\"" ∧
    ¬Exports ⟨fun _ => none⟩ (Macos.setEnv "A" "a\" b=\"") ⟨3,7,"/bin/zsh"⟩ "A" "a\" b=\"" ∧
    ¬Exports ⟨fun _ => none⟩ (PtyProcessInterface.setEnv "A" "a\" b=\"") ⟨3,7,"/bin/bash"⟩ "A" "a\" b=\"" := by
  have hname : isName "A".toList = true := by simp [isName]
  have hspecial : ¬∀ c ∈ "a\" b=\"".toList, c ∉ special := by simp [special]
  have hquotable : ¬Quotable "a\" b=\"".toList := by simp [Quotable,Kept]
  exact ⟨fun h => hspecial ((exports_setEnv_iff hname).mp h).1,
    fun h => hspecial ((exports_setEnv_iff hname).mp h).1,
    fun h => hquotable ((exports_interface_iff hname).mp h)⟩

end Exports

end NodeRustPty
