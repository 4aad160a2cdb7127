import NodeRustPty.CloseFallback
import NodeRustPty.ProcessInterface

/-! `resize` of `pty/handle.rs`, whose process is that of either platform. When the reply is a
failure or late, it goes on with `force_kill` and returns what that returns. -/
namespace NodeRustPty

/-- What the handler calls on either platform. -/
inductive HostCall
  | proc (call : ProcSys)
  | table (call : TableCall)
  | send (responder : ℕ) (result : PtyResult)

abbrev HostCall.Res : HostCall → Type
  | .proc call => call.Res
  | .table call => Except String call.Value
  | .send _ _ => Unit

abbrev HostProg := Prog HostCall HostCall.Res

abbrev HostTrace := List (Prog.Event HostCall HostCall.Res)

namespace HostCall

def ofCall : Call → HostCall
  | .sys call => .proc (.sys call)
  | .table call => .table call
  | .send responder result => .send responder result

def back : (call : Call) → (ofCall call).Res → call.Res
  | .sys _,res => res
  | .table _,res => res
  | .send _ _,res => res

def forth : (call : Call) → call.Res → (ofCall call).Res
  | .sys _,res => res
  | .table _,res => res
  | .send _ _,res => res

theorem forth_back (call : Call) (res : (ofCall call).Res) : forth call (back call res) = res := by
  cases call <;> rfl

end HostCall

open CommandHandler

/-- `handle_resize` calls the `resize` of the platform. -/
def Platform.handleResize (platform : Platform) (slot : Slot) (cols rows : UInt16) (responder : ℕ) :
    HostProg Slot := do
  let result ← match slot with
    | some process => ((platform.methods process).resize cols rows).hoist HostCall.proc fun _ res => res
    | none => pure (.error notInitialized)
  (answer slot responder (fun _ => .success s!"Resized to cols: {cols}, rows: {rows}")
    (fun e => s!"Resize error: {e}") result).hoist HostCall.ofCall HostCall.back

/-- The other handlers are as on Linux, except that `ChangeShell` forks another way. -/
def Platform.handle (platform : Platform) (multiplexer : Option PtyMultiplexer) (slot : Slot) :
    PtyCommand → HostProg Slot
  | .resize cols rows responder => platform.handleResize slot cols rows responder
  | command => (CommandHandler.handle multiplexer slot command).hoist HostCall.ofCall HostCall.back

theorem Platform.handle_linux (multiplexer : Option PtyMultiplexer) (slot : Slot) (command : PtyCommand) :
    Platform.linux.handle multiplexer slot command =
      (CommandHandler.handle multiplexer slot command).hoist HostCall.ofCall HostCall.back := by
  cases command with
  | resize cols rows responder =>
    cases slot with
    | none => rfl
    | some process =>
      have hresize : (Platform.linux.methods process).resize cols rows = _ :=
        onProc_call (PtyProcess.resize_eq process cols rows)
      rw [Platform.handle,Platform.handleResize,hresize,CommandHandler.handle,CommandHandler.handleResize,
        answerProcess,PtyProcess.resize_eq]
      rfl
  | _ => rfl

namespace PtyHandle

/-- A failure and a timeout escalate, unlike in the other methods. -/
def resize (cols rows : UInt16) : ClientProg (Except NapiError Unit) := do
  match ← request (.resize cols rows 0) 5000 with
  | .unsent => pure (.error ⟨.genericFailure,s!"Failed to send resize command: {sendError}"⟩)
  | .reply (.success _) => pure (.ok ())
  | .reply (.failure _) => forceKill 5000 1
  | .reply (.data _) => pure (.error ⟨.unknown,"Resize operation returned unexpected result"⟩)
  | .dropped => pure (.error ⟨.unknown,"Resize operation receiver dropped"⟩)
  | .timedOut => forceKill 5000 1

/-! ### What the outside decides -/

/-- How far a request gets. `unhandled` is a timeout before the handler gets to it for good,
`late` one before the handler answers. -/
inductive Fate
  | unsent | dropped | unhandled | late | inTime
  deriving DecidableEq

/-- How a request ends that the handler does not get to. -/
def Fate.lost : Fate → Option Ending
  | .unsent => some .unsent
  | .dropped => some .dropped
  | .unhandled => some .timedOut
  | .late => none
  | .inTime => none

/-- The answers of the system, of which a run asks each question once, and the ways of the requests. -/
structure Outcomes where
  answer : (call : ProcSys) → call.Res
  fate : PtyCommand → Fate

/-- The process cannot be resized: the size cannot be set, or on macOS the child cannot be told,
or the size read back is another. -/
def Outcomes.ResizeFails (outcomes : Outcomes) (process : PtyProcess) (cols rows : UInt16) : Platform → Prop
  | .linux => (outcomes.answer (.sys (.setWinsize process.masterFd cols rows)) : Ret).value ≠ 0
  | .macos => (outcomes.answer (.sys (.setWinsize process.masterFd cols rows)) : Ret).value ≠ 0 ∨
    outcomes.answer (.sigwinch process.pid) ≠ none ∨
    (outcomes.answer (.getWinsize process.masterFd)).1.value ≠ 0 ∨
    (outcomes.answer (.getWinsize process.masterFd)).2 ≠ (cols,rows)

/-- There is a process, it cannot be resized or that takes too long, and then a kill of it
gets through in time. -/
def Outcomes.KillsInstead (outcomes : Outcomes) (platform : Platform) (slot : Slot) (cols rows : UInt16) : Prop :=
  ∃ process, slot = some process ∧
    (outcomes.fate (.resize cols rows 0) = .late ∨
      outcomes.fate (.resize cols rows 0) = .inTime ∧ outcomes.ResizeFails process cols rows platform) ∧
    outcomes.fate (.forceKill 1) = .inTime ∧
    (outcomes.answer (.sys (.close process.masterFd)) : Ret).value = 0

/-! ### Runs -/

/-- A signal other than `SIGWINCH` was sent to some process. -/
def Kills (trace : HostTrace) : Prop :=
  ∃ (pid : ℤ) (signal : Int32) (ret : Ret), ⟨.proc (.sys (.kill pid signal)),ret⟩ ∈ trace ∧ signal ≠ 0

/-- The system answered as in these outcomes. -/
def Outcomes.Gives (outcomes : Outcomes) (trace : HostTrace) : Prop :=
  ∀ (call : ProcSys) (res : call.Res), ⟨.proc call,res⟩ ∈ trace → res = outcomes.answer call

/-- How a request ends that was handled with this trace: with its reply, or too late for it. -/
def Outcomes.Settled (outcomes : Outcomes) (command : PtyCommand) (trace : HostTrace) (ending : Ending) : Prop :=
  (outcomes.fate command = .late ∧ ending = .timedOut) ∨
    outcomes.fate command = .inTime ∧ ∃ result, ending = .reply result ∧ ⟨.send command.responder result,()⟩ ∈ trace

/-- The handler gets to the requests of a client one after another, or to none from some point on.
In between it may handle commands of others that neither signal nor change the slot. The trace is
that of the client's own commands. -/
inductive Exchange (platform : Platform) (multiplexer : Option PtyMultiplexer) (outcomes : Outcomes) :
    Slot → ClientTrace → HostTrace → Slot → Prop
  | lost {slot : Slot} {requests : ClientTrace}
      (h : ∀ event ∈ requests, (outcomes.fate event.1.command).lost = some event.2) :
      Exchange platform multiplexer outcomes slot requests [] slot
  | handled {slot slot₁ slot₂ : Slot} {request : Request} {ending : Ending} {requests : ClientTrace}
      {trace trace' : HostTrace} (hhandled : (platform.handle multiplexer slot request.command).Traces trace slot₁)
      (hgives : outcomes.Gives trace) (hsettled : outcomes.Settled request.command trace ending)
      (hrest : Exchange platform multiplexer outcomes slot₁ requests trace' slot₂) :
      Exchange platform multiplexer outcomes slot (⟨request,ending⟩::requests) (trace ++ trace') slot₂
  | other {slot slot' : Slot} {command : PtyCommand} {requests : ClientTrace} {trace trace' : HostTrace}
      (hhandled : (platform.handle multiplexer slot command).Traces trace' slot) (hkills : ¬Kills trace')
      (hrest : Exchange platform multiplexer outcomes slot requests trace slot') :
      Exchange platform multiplexer outcomes slot requests trace slot'

/-- The process in the slot was given this size. -/
def CarriedOut (cols rows : UInt16) (slot : Slot) (trace : HostTrace) : Prop :=
  ∃ (process : PtyProcess) (ret : Ret), slot = some process ∧
    ⟨.proc (.sys (.setWinsize process.masterFd cols rows)),ret⟩ ∈ trace ∧ ret.value = 0

/-- It was, it was not killed, and it is still there. -/
structure Resized (cols rows : UInt16) (slot : Slot) (trace : HostTrace) (slot' : Slot) : Prop where
  carriedOut : CarriedOut cols rows slot trace
  spared : ¬Kills trace
  kept : slot' = slot

/-- The result tells what has happened: success is a resize, and a failed resize is an error. -/
def Truthful (cols rows : UInt16) (slot : Slot) (trace : HostTrace) (slot' : Slot)
    (result : Except NapiError Unit) : Prop :=
  (result = .ok () → Resized cols rows slot trace slot') ∧
    (¬CarriedOut cols rows slot trace → ∃ e, result = .error e)

/-! ### The handler's side -/

section Handler

variable {platform : Platform} {multiplexer : Option PtyMultiplexer} {outcomes : Outcomes} {slot slot' : Slot}
  {process : PtyProcess} {cols rows : UInt16} {trace : HostTrace}

/-- What `resize` of a platform may have called with these outcomes, and what it returns. -/
def ResizeEnds (outcomes : Outcomes) (process : PtyProcess) (cols rows : UInt16) (platform : Platform)
    (trace : ProcTrace) (result : Except IoError Unit) : Prop :=
  (∀ event ∈ trace, ∀ (pid : ℤ) (signal : Int32), event.1 ≠ .sys (.kill pid signal)) ∧
    ((outcomes.ResizeFails process cols rows platform ∧ ∃ e, result = .error e) ∨
      ¬outcomes.ResizeFails process cols rows platform ∧ result = .ok () ∧
        ∃ ret : Ret, ⟨.sys (.setWinsize process.masterFd cols rows),ret⟩ ∈ trace ∧ ret.value = 0)

theorem linux_resize_ends {trace : ProcTrace} {result : Except IoError Unit}
    (h : ((Platform.linux.methods process).resize cols rows).Traces trace result)
    (hgives : ∀ (call : ProcSys) (res : call.Res), ⟨call,res⟩ ∈ trace → res = outcomes.answer call) :
    ResizeEnds outcomes process cols rows .linux trace result := by
  have hresize : (Platform.linux.methods process).resize cols rows = _ := resize_onProc process cols rows
  rw [hresize] at h
  obtain ⟨(set : Ret),rest,rfl,hrest⟩ := Prog.traces_call.mp h
  obtain ⟨rfl,rfl⟩ := Prog.traces_pure.mp hrest
  have hset : set = outcomes.answer (.sys (.setWinsize process.masterFd cols rows)) := hgives _ _ List.mem_cons_self
  refine ⟨by simp,?_⟩
  by_cases hgood : set.value = 0
  · refine .inr ⟨?_,by rw [if_neg (not_not_intro hgood)],set,List.mem_cons_self,hgood⟩
    rw [Outcomes.ResizeFails,← hset]
    exact not_not_intro hgood
  · refine .inl ⟨?_,set.error,by rw [if_pos hgood]⟩
    rw [Outcomes.ResizeFails,← hset]
    exact hgood

theorem macos_resize_ends {trace : ProcTrace} {result : Except IoError Unit}
    (h : (Macos.resize process cols rows).Traces trace result)
    (hgives : ∀ (call : ProcSys) (res : call.Res), ⟨call,res⟩ ∈ trace → res = outcomes.answer call) :
    ResizeEnds outcomes process cols rows .macos trace result := by
  rw [Macos.resize] at h
  obtain ⟨(set : Ret),rest,rfl,hrest⟩ := Prog.traces_call.mp h
  have hset : set = outcomes.answer (.sys (.setWinsize process.masterFd cols rows)) := hgives _ _ List.mem_cons_self
  change (if set.value ≠ 0 then Prog.pure (.error set.error) else _).Traces rest result at hrest
  by_cases hgood : set.value = 0
  swap
  · rw [if_pos hgood] at hrest
    obtain ⟨rfl,rfl⟩ := Prog.traces_pure.mp hrest
    refine ⟨by simp,.inl ⟨.inl ?_,set.error,rfl⟩⟩
    rw [← hset]
    exact hgood
  rw [if_neg (not_not_intro hgood)] at hrest
  obtain ⟨(told : Option String),rest,rfl,htold⟩ := Prog.traces_call.mp hrest
  have htell : told = outcomes.answer (.sigwinch process.pid) :=
    hgives _ _ (List.mem_cons_of_mem _ List.mem_cons_self)
  cases told with
  | some text =>
    obtain ⟨rfl,rfl⟩ := Prog.traces_pure.mp htold
    refine ⟨by simp,.inl ⟨.inr (.inl ?_),_,rfl⟩⟩
    rw [← htell]
    exact Option.some_ne_none text
  | none =>
    obtain ⟨slept,rest,rfl,hslept⟩ := Prog.traces_call.mp htold
    obtain ⟨got,rest,rfl,hgot⟩ := Prog.traces_call.mp hslept
    have hget : got = outcomes.answer (.getWinsize process.masterFd) :=
      hgives _ _ (List.mem_cons_of_mem _ (List.mem_cons_of_mem _ (List.mem_cons_of_mem _ List.mem_cons_self)))
    obtain ⟨read,currentCols,currentRows⟩ := got
    change (if read.value ≠ 0 then Prog.pure (.error read.error) else
      if currentRows ≠ rows ∨ currentCols ≠ cols then Prog.pure (.error _) else Prog.pure (.ok ())).Traces rest
        result at hgot
    split_ifs at hgot with hread hsize
    · obtain ⟨rfl,rfl⟩ := Prog.traces_pure.mp hgot
      refine ⟨by simp,.inl ⟨.inr (.inr (.inl ?_)),_,rfl⟩⟩
      rw [← hget]
      exact hread
    · obtain ⟨rfl,rfl⟩ := Prog.traces_pure.mp hgot
      refine ⟨by simp,.inl ⟨.inr (.inr (.inr ?_)),_,rfl⟩⟩
      rw [← hget]
      rintro hsame
      obtain ⟨rfl,rfl⟩ := Prod.mk.inj hsame
      simp at hsize
    · obtain ⟨rfl,rfl⟩ := Prog.traces_pure.mp hgot
      refine ⟨by simp,.inr ⟨?_,rfl,set,List.mem_cons_self,hgood⟩⟩
      rw [Outcomes.ResizeFails,← hset,← htell,← hget]
      push Not at hread hsize
      rintro (hbad | hbad | hbad | hbad)
      · exact hbad hgood
      · exact hbad rfl
      · exact hbad hread
      · exact hbad (by rw [hsize.1,hsize.2])

theorem methods_resize_ends {trace : ProcTrace} {result : Except IoError Unit}
    (h : ((platform.methods process).resize cols rows).Traces trace result)
    (hgives : ∀ (call : ProcSys) (res : call.Res), ⟨call,res⟩ ∈ trace → res = outcomes.answer call) :
    ResizeEnds outcomes process cols rows platform trace result := by
  cases platform with
  | linux => exact linux_resize_ends h hgives
  | macos => exact macos_resize_ends h hgives

/-- The reply that a handler makes of a result. -/
def replyOf (success : Unit → PtyResult) (failure : String → String) : Except IoError Unit → PtyResult
  | .ok a => success a
  | .error e => .failure (failure e.text)

theorem traces_answer {success : Unit → PtyResult} {failure : String → String} {responder : ℕ}
    {result : Except IoError Unit}
    (h : ((answer slot responder success failure result).hoist HostCall.ofCall HostCall.back).Traces trace slot') :
    slot' = slot ∧ trace = [⟨.send responder (replyOf success failure result),()⟩] := by
  cases result with
  | ok _ =>
    obtain ⟨res,rest,rfl,hrest⟩ := Prog.traces_call.mp h
    obtain ⟨rfl,rfl⟩ := Prog.traces_pure.mp hrest
    exact ⟨rfl,rfl⟩
  | error e =>
    obtain ⟨res,rest,rfl,hrest⟩ := Prog.traces_call.mp h
    obtain ⟨rfl,rfl⟩ := Prog.traces_pure.mp hrest
    exact ⟨rfl,rfl⟩

/-- What a handled `Resize` has done to the process and what it replies. -/
theorem handle_resize_cases
    (h : (platform.handle multiplexer (some process) (.resize cols rows 0)).Traces trace slot')
    (hgives : outcomes.Gives trace) : slot' = some process ∧ ¬Kills trace ∧
    ((outcomes.ResizeFails process cols rows platform ∧
        ∀ reply, ⟨.send 0 reply,()⟩ ∈ trace → ∃ message, reply = .failure message) ∨
      ¬outcomes.ResizeFails process cols rows platform ∧ CarriedOut cols rows (some process) trace ∧
        ∀ reply, ⟨.send 0 reply,()⟩ ∈ trace → ∃ message, reply = .success message) := by
  obtain ⟨first,result,second,rfl,hfirst,hsecond⟩ := Prog.traces_bind.mp h
  obtain ⟨rfl,rfl⟩ := traces_answer hsecond
  obtain ⟨calls,hcalls,rfl⟩ := Prog.traces_hoist HostCall.proc (fun _ res => res) (fun _ res => res)
    (fun _ _ => rfl) hfirst
  have hproc {call : ProcSys} {res : call.Res} (hmem : ⟨call,res⟩ ∈ calls) :
      (⟨.proc call,res⟩ : Prog.Event HostCall HostCall.Res) ∈ calls.map fun event => ⟨.proc event.1,event.2⟩ :=
    List.mem_map.mpr ⟨_,hmem,rfl⟩
  obtain ⟨hquiet,hends⟩ := methods_resize_ends hcalls fun call res hmem =>
    hgives call res (List.mem_append_left _ (hproc hmem))
  have hreplies {reply : PtyResult} (hmem : ⟨.send 0 reply,()⟩ ∈ (calls.map fun event =>
      (⟨.proc event.1,event.2⟩ : Prog.Event HostCall HostCall.Res)) ++ [⟨.send 0 (replyOf
        (fun _ => .success s!"Resized to cols: {cols}, rows: {rows}") (fun e => s!"Resize error: {e}") result),()⟩]) :
      reply = replyOf (fun _ => .success s!"Resized to cols: {cols}, rows: {rows}")
        (fun e => s!"Resize error: {e}") result := by
    simpa using hmem
  refine ⟨rfl,?_,?_⟩
  · rintro ⟨pid,signal,ret,hmem,-⟩
    rcases List.mem_append.mp hmem with hcall | hsend
    · obtain ⟨event,hevent,heq⟩ := List.mem_map.mp hcall
      obtain ⟨hcall,-⟩ := Sigma.mk.inj heq
      exact hquiet event hevent pid signal (HostCall.proc.inj hcall)
    · simp at hsend
  rcases hends with ⟨hfails,e,rfl⟩ | ⟨hgood,rfl,set,hset,hzero⟩
  · exact .inl ⟨hfails,fun reply hmem => ⟨_,hreplies hmem⟩⟩
  · exact .inr ⟨hgood,⟨process,set,rfl,List.mem_append_left _ (hproc hset),hzero⟩,fun reply hmem => ⟨_,hreplies hmem⟩⟩

theorem handle_resize_none (h : (platform.handle multiplexer none (.resize cols rows 0)).Traces trace slot') :
    slot' = none ∧ ∀ reply, ⟨.send 0 reply,()⟩ ∈ trace → ∃ message, reply = .failure message := by
  obtain ⟨first,result,second,rfl,hfirst,hsecond⟩ := Prog.traces_bind.mp h
  obtain ⟨rfl,rfl⟩ := traces_answer hsecond
  obtain ⟨rfl,rfl⟩ := Prog.traces_pure.mp hfirst
  refine ⟨rfl,fun reply hreply => ?_⟩
  obtain rfl : reply = _ := by simpa using hreply
  exact ⟨_,rfl⟩

/-- What a renamed trace sends, the trace itself has sent. -/
theorem mem_replies {calls : Trace} {responder : ℕ} {reply : PtyResult}
    (h : (⟨.send responder reply,()⟩ : Prog.Event HostCall HostCall.Res) ∈
      calls.map fun event => ⟨HostCall.ofCall event.1,HostCall.forth event.1 event.2⟩) :
    (responder,reply) ∈ replies calls := by
  obtain ⟨⟨call,res⟩,hevent,heq⟩ := List.mem_map.mp h
  obtain ⟨hcall,-⟩ := Sigma.mk.inj heq
  cases call with
  | send responder' reply' =>
    obtain ⟨rfl,rfl⟩ := HostCall.send.inj hcall
    exact List.mem_filterMap.mpr ⟨_,hevent,rfl⟩
  | sys | table => cases hcall

/-- `ForceKill` signals a process and answers what closing its descriptor has answered. -/
theorem handle_forceKill_some
    (h : (platform.handle multiplexer (some process) (.forceKill 1)).Traces trace slot') : Kills trace ∧
    ∃ closed : Ret, ⟨.proc (.sys (.close process.masterFd)),closed⟩ ∈ trace ∧
      ((closed.value = 0 ∧ ∀ reply, ⟨.send 1 reply,()⟩ ∈ trace → ∃ message, reply = .success message) ∨
        closed.value ≠ 0 ∧ ∀ reply, ⟨.send 1 reply,()⟩ ∈ trace → ∃ message, reply = .failure message) := by
  obtain ⟨calls,hcalls,rfl⟩ := Prog.traces_hoist HostCall.ofCall HostCall.back HostCall.forth HostCall.forth_back h
  have hforce : (handleForceKill (some process) 1).Traces calls slot' := hcalls
  rw [handleForceKill] at hforce
  obtain ⟨killed,waited,closed,rfl⟩ := answerTaken_traces hforce
  refine ⟨⟨process.pid,sigkill,killed,List.mem_cons_self,by decide⟩,closed,?_,?_⟩
  · exact List.mem_cons_of_mem _ (List.mem_cons_of_mem _ List.mem_cons_self)
  have hreply {reply : PtyResult} (hmem : (1,reply) ∈ replies (tearDownTrace process sigkill 0 killed waited closed 1
      (if closed.value ≠ 0 then .failure s!"Force kill error: {closed.error.text}"
        else .success "Force killed PTY process successfully"))) :
      reply = if closed.value ≠ 0 then .failure s!"Force kill error: {closed.error.text}"
        else .success "Force killed PTY process successfully" := by
    rw [replies_tearDownTrace,List.mem_singleton] at hmem
    exact (Prod.mk.inj hmem).2
  by_cases hzero : closed.value = 0
  · have hsuccess := not_not_intro hzero
    exact .inl ⟨hzero,fun reply hmem => ⟨_,(hreply (mem_replies hmem)).trans (if_neg hsuccess)⟩⟩
  · exact .inr ⟨hzero,fun reply hmem => ⟨_,(hreply (mem_replies hmem)).trans (if_pos hzero)⟩⟩

theorem handle_forceKill_none (h : (platform.handle multiplexer none (.forceKill 1)).Traces trace slot') :
    ∀ reply, ⟨.send 1 reply,()⟩ ∈ trace → ∃ message, reply = .failure message := by
  obtain ⟨calls,hcalls,rfl⟩ := Prog.traces_hoist HostCall.ofCall HostCall.back HostCall.forth HostCall.forth_back h
  obtain ⟨⟨message,rfl⟩,-⟩ := handle_none_of_needsProcess rfl hcalls
  intro reply hmem
  have hreply := mem_replies hmem
  exact ⟨message,(Prod.mk.inj (List.mem_singleton.mp hreply)).2⟩

end Handler

/-! ### The client's side -/

section Client

variable {platform : Platform} {multiplexer : Option PtyMultiplexer} {outcomes : Outcomes} {slot slot' : Slot}
  {requests : ClientTrace} {trace : HostTrace} {cols rows : UInt16} {result : Except NapiError Unit}

theorem exchange_nil (h : Exchange platform multiplexer outcomes slot [] trace slot') : trace = [] ∧ slot' = slot := by
  generalize hrequests : ([] : ClientTrace) = requests at h
  induction h with
  | lost h => exact ⟨rfl,rfl⟩
  | handled hhandled hgives hsettled hrest ih => cases hrequests
  | other hhandled hkills hrest ih => exact ih hrequests

/-- The handler gets to the first request from the same slot, or to no request at all. -/
theorem exchange_cons {request : Request} {ending : Ending}
    (h : Exchange platform multiplexer outcomes slot (⟨request,ending⟩::requests) trace slot') :
    (trace = [] ∧ (outcomes.fate request.command).lost = some ending ∧
      ∀ event ∈ requests, (outcomes.fate event.1.command).lost = some event.2) ∨
    ∃ first slot₁ second, trace = first ++ second ∧
      (platform.handle multiplexer slot request.command).Traces first slot₁ ∧ outcomes.Gives first ∧
      outcomes.Settled request.command first ending ∧
      Exchange platform multiplexer outcomes slot₁ requests second slot' := by
  generalize hrequests : ⟨request,ending⟩::requests = all at h
  induction h with
  | lost h =>
    subst hrequests
    obtain ⟨hfirst,hrest⟩ := List.forall_mem_cons.mp h
    exact .inl ⟨rfl,hfirst,hrest⟩
  | handled hhandled hgives hsettled hrest ih =>
    cases hrequests
    exact .inr ⟨_,_,_,rfl,hhandled,hgives,hsettled,hrest⟩
  | other hhandled hkills hrest ih => exact ih hrequests

/-- A kill of the process in the slot gets through in time. -/
def Outcomes.KillsOf (outcomes : Outcomes) (slot : Slot) : Prop :=
  outcomes.fate (.forceKill 1) = .inTime ∧
    ∃ process, slot = some process ∧ (outcomes.answer (.sys (.close process.masterFd)) : Ret).value = 0

theorem not_killsOf_none : ¬outcomes.KillsOf none := by
  rintro ⟨-,process,hslot,-⟩
  cases hslot

/-- `force_kill` is a success, after a signal, exactly when the kill gets through. -/
theorem forceKill_cases (hclient : (forceKill 5000 1).Traces requests result)
    (h : Exchange platform multiplexer outcomes slot requests trace slot') :
    (¬outcomes.KillsOf slot ∧ ∃ e, result = .error e) ∨ (outcomes.KillsOf slot ∧ Kills trace ∧ result = .ok ()) := by
  obtain ⟨ending,rest,rfl,hrest⟩ := Prog.traces_call.mp hclient
  obtain ⟨rfl,rfl⟩ := Prog.traces_pure.mp hrest
  rcases exchange_cons h with ⟨rfl,hlost,-⟩ | ⟨first,slot₁,second,rfl,hhandled,hgives,hsettled,hsecond⟩
  · refine .inl ⟨fun hkills => ?_,?_⟩
    · rw [hkills.1] at hlost
      cases hlost
    · cases hfate : outcomes.fate (.forceKill 1) <;> rw [hfate] at hlost <;> cases hlost <;> exact ⟨_,rfl⟩
  obtain ⟨rfl,-⟩ := exchange_nil hsecond
  rw [List.append_nil]
  rcases hsettled with ⟨hlate,rfl⟩ | ⟨hinTime,reply,rfl,hreply⟩
  · refine .inl ⟨fun hkills => ?_,_,rfl⟩
    rw [hkills.1] at hlate
    cases hlate
  cases slot with
  | none =>
    obtain ⟨message,rfl⟩ := handle_forceKill_none hhandled reply hreply
    exact .inl ⟨not_killsOf_none,_,rfl⟩
  | some process =>
    obtain ⟨hkills,closed,hclosed,hends⟩ := handle_forceKill_some hhandled
    have hanswer : closed = outcomes.answer (.sys (.close process.masterFd)) := hgives _ _ hclosed
    rcases hends with ⟨hzero,hall⟩ | ⟨hbad,hall⟩
    · obtain ⟨message,rfl⟩ := hall reply hreply
      exact .inr ⟨⟨hinTime,process,rfl,hanswer ▸ hzero⟩,hkills,rfl⟩
    · obtain ⟨message,rfl⟩ := hall reply hreply
      refine .inl ⟨?_,_,rfl⟩
      rintro ⟨-,process',hslot,hzero⟩
      cases hslot
      rw [← hanswer] at hzero
      exact hbad hzero

theorem truthful_error (e : NapiError) : Truthful cols rows slot trace slot' (.error e) := by
  constructor
  · intro hok
    cases hok
  · exact fun _ => ⟨e,rfl⟩

/-- A call that goes on with `force_kill` tells what has happened exactly when the kill does not get through. -/
theorem truthful_of_forceKill {slot₁ : Slot} {first second : HostTrace}
    (hclient : (forceKill 5000 1).Traces requests result)
    (h : Exchange platform multiplexer outcomes slot₁ requests second slot') :
    Truthful cols rows slot (first ++ second) slot' result ↔ ¬outcomes.KillsOf slot₁ := by
  rcases forceKill_cases hclient h with ⟨hnot,e,rfl⟩ | ⟨hyes,⟨pid,signal,ret,hmem,hsignal⟩,rfl⟩
  · exact iff_of_true (truthful_error e) hnot
  · refine iff_of_false (fun htruthful => ?_) (not_not_intro hyes)
    exact (htruthful.1 rfl).spared ⟨pid,signal,ret,List.mem_append_right _ hmem,hsignal⟩

/-- With a process in the slot that cannot be resized in time the kill decides. -/
theorem killsInstead_iff {process : PtyProcess} (hslow : outcomes.fate (.resize cols rows 0) = .late ∨
      outcomes.fate (.resize cols rows 0) = .inTime ∧ outcomes.ResizeFails process cols rows platform) :
    outcomes.KillsInstead platform (some process) cols rows ↔ outcomes.KillsOf (some process) := by
  constructor
  · rintro ⟨process',hslot,-,hfate,hzero⟩
    exact ⟨hfate,process',hslot,hzero⟩
  · rintro ⟨hfate,process',hslot,hzero⟩
    cases hslot
    exact ⟨process,rfl,hslow,hfate,hzero⟩

end Client

/-- The result of `resize` tells what has happened exactly when it has not killed the process instead. -/
theorem resize_truthful_iff (platform : Platform) (multiplexer : Option PtyMultiplexer) (outcomes : Outcomes)
    (cols rows : UInt16) (slot slot' : Slot) (requests : ClientTrace) (trace : HostTrace)
    (result : Except NapiError Unit) (hclient : (resize cols rows).Traces requests result)
    (h : Exchange platform multiplexer outcomes slot requests trace slot') :
    Truthful cols rows slot trace slot' result ↔ ¬outcomes.KillsInstead platform slot cols rows := by
  obtain ⟨ending,rest,rfl,hrest⟩ := Prog.traces_call.mp hclient
  rcases exchange_cons h with ⟨rfl,hlost,hlater⟩ | ⟨first,slot₁,second,rfl,hhandled,hgives,hsettled,hsecond⟩
  · -- The handler gets to no request of the call.
    have hnot : ¬outcomes.KillsInstead platform slot cols rows := by
      rintro ⟨process,-,hfate | ⟨hfate,-⟩,-⟩ <;> rw [hfate] at hlost <;> cases hlost
    have herror : ∃ e, result = .error e := by
      cases hfate : outcomes.fate (.resize cols rows 0) <;> rw [hfate] at hlost <;> cases hlost
      case unsent | dropped =>
        obtain ⟨-,rfl⟩ := Prog.traces_pure.mp hrest
        exact ⟨_,rfl⟩
      case unhandled =>
        have hsecond : Exchange platform multiplexer outcomes none rest [] none := .lost hlater
        rcases forceKill_cases hrest hsecond with ⟨-,herror⟩ | ⟨hkills,-⟩
        · exact herror
        · exact absurd hkills not_killsOf_none
    obtain ⟨e,rfl⟩ := herror
    exact iff_of_true (truthful_error e) hnot
  cases slot with
  | none =>
    obtain ⟨rfl,hreplies⟩ := handle_resize_none hhandled
    have hnot : ¬outcomes.KillsInstead platform none cols rows := by
      rintro ⟨process,hslot,-⟩
      cases hslot
    rw [iff_of_true hnot not_killsOf_none]
    rcases hsettled with ⟨-,rfl⟩ | ⟨-,reply,rfl,hreply⟩
    · exact truthful_of_forceKill hrest hsecond
    · obtain ⟨message,rfl⟩ := hreplies reply hreply
      exact truthful_of_forceKill hrest hsecond
  | some process =>
    obtain ⟨rfl,hspared,hends⟩ := handle_resize_cases hhandled hgives
    rcases hsettled with ⟨hlate,rfl⟩ | ⟨hinTime,reply,rfl,hreply⟩
    · rw [killsInstead_iff (.inl hlate)]
      exact truthful_of_forceKill hrest hsecond
    rcases hends with ⟨hfails,hreplies⟩ | ⟨hgood,hcarried,hreplies⟩
    · obtain ⟨message,rfl⟩ := hreplies reply hreply
      rw [killsInstead_iff (.inr ⟨hinTime,hfails⟩)]
      exact truthful_of_forceKill hrest hsecond
    · obtain ⟨message,rfl⟩ := hreplies reply hreply
      obtain ⟨rfl,rfl⟩ := Prog.traces_pure.mp hrest
      obtain ⟨rfl,rfl⟩ := exchange_nil hsecond
      rw [List.append_nil]
      refine iff_of_true ⟨fun _ => ⟨hcarried,hspared,rfl⟩,fun hnot => absurd hcarried hnot⟩ ?_
      rintro ⟨process',hslot,hlate | ⟨-,hfails⟩,-⟩
      · rw [hinTime] at hlate
        cases hlate
      · cases hslot
        exact hgood hfails

/-- All replies are in time, and all calls answer 0, except that the size is set with this answer. -/
def prompt (set : Ret) : Outcomes where
  answer
    | .sys (.setWinsize _ _ _) => set
    | .sys (.write _ _) => zero
    | .sys (.read _ _) => (zero,[])
    | .sys (.close _) => zero
    | .sys (.kill _ _) => zero
    | .sys (.waitpid _ _) => zero
    | .sys .posixOpenpt => zero
    | .sys (.grantpt _) => zero
    | .sys (.unlockpt _) => zero
    | .sys (.ptsname _) => (zero,none)
    | .sys (.openSlave _) => zero
    | .sys .fork => zero
    | .sys (.setVar _ _) => ()
    | .sys (.setMaxLevel _) => ()
    | .sigwinch _ => none
    | .sleep _ => ()
    | .getWinsize _ => (zero,80,24)
  fate _ := .inTime

def sized : PtyResult := .success s!"Resized to cols: {(80 : UInt16)}, rows: {(24 : UInt16)}"

def notSized : PtyResult := .failure "Resize error: EIO"

def forced : PtyResult := .success "Force killed PTY process successfully"

/-- The handling of a resize on macOS, whole and with an `ioctl` that fails, and of the kill. -/
def sizedTrace : HostTrace :=
  [⟨.proc (.sys (.setWinsize 5 80 24)),zero⟩,⟨.proc (.sigwinch 42),none⟩,⟨.proc (.sleep 200),()⟩,
    ⟨.proc (.getWinsize 5),(zero,80,24)⟩,⟨.send 0 sized,()⟩]

def notSizedTrace : HostTrace := [⟨.proc (.sys (.setWinsize 5 80 24)),eio⟩,⟨.send 0 notSized,()⟩]

def forcedTrace : HostTrace :=
  [⟨.proc (.sys (.kill 42 sigkill)),zero⟩,⟨.proc (.sys (.waitpid 42 0)),zero⟩,⟨.proc (.sys (.close 5)),zero⟩,
    ⟨.send 1 forced,()⟩]

theorem resize_truthful_sized : Truthful 80 24 (some shell) (sizedTrace ++ []) (some shell) (.ok ()) := by
  have hclient : (resize 80 24).Traces [⟨⟨.resize 80 24 0,5000⟩,.reply sized⟩] (.ok ()) := .call _ (.pure _)
  have hgives : (prompt zero).Gives sizedTrace := by
    intro call res hmem
    simp only [sizedTrace,List.mem_cons,List.not_mem_nil,or_false] at hmem
    rcases hmem with h | h | h | h | h <;> cases h <;> rfl
  have hsettled : (prompt zero).Settled (.resize 80 24 0) sizedTrace (.reply sized) :=
    .inr ⟨rfl,sized,rfl,by simp [sizedTrace,PtyCommand.responder]⟩
  have hrest : Exchange .macos none (prompt zero) (some shell) [] [] (some shell) := .lost (by simp)
  have hhandled : (Platform.macos.handle none (some shell) (.resize 80 24 0)).Traces sizedTrace (some shell) :=
    .call _ (.call _ (.call _ (.call _ (.call _ (.pure _)))))
  refine (resize_truthful_iff .macos none (prompt zero) 80 24 _ _ _ _ _ hclient
    (.handled hhandled hgives hsettled hrest)).mpr ?_
  rintro ⟨process,hslot,hlate | ⟨-,hfails⟩,-⟩
  · cases hlate
  · cases hslot
    rcases hfails with h | h | h | h <;> exact h rfl

/-- The `ioctl` fails, the process is killed, and the result is a success. -/
theorem resize_not_truthful : ∃ requests trace, (resize 80 24).Traces requests (.ok ()) ∧
    Exchange .macos none (prompt eio) (some shell) requests trace none ∧ ¬CarriedOut 80 24 (some shell) trace ∧
    Kills trace ∧ ¬Truthful 80 24 (some shell) trace none (.ok ()) := by
  have hresized : (Platform.macos.handle none (some shell) (.resize 80 24 0)).Traces notSizedTrace (some shell) :=
    .call _ (.call _ (.pure _))
  have hkilled : (Platform.macos.handle none (some shell) (.forceKill 1)).Traces forcedTrace none :=
    .call _ (.call _ (.call _ (.call _ (.pure _))))
  have hgives : (prompt eio).Gives notSizedTrace ∧ (prompt eio).Gives forcedTrace := by
    constructor
    · intro call res hmem
      simp only [notSizedTrace,List.mem_cons,List.not_mem_nil,or_false] at hmem
      rcases hmem with h | h
      · cases h
        rfl
      · cases h
    · intro call res hmem
      simp only [forcedTrace,List.mem_cons,List.not_mem_nil,or_false] at hmem
      rcases hmem with h | h | h | h <;> cases h <;> rfl
  have hsettled : (prompt eio).Settled (.resize 80 24 0) notSizedTrace (.reply notSized) ∧
      (prompt eio).Settled (.forceKill 1) forcedTrace (.reply forced) :=
    ⟨.inr ⟨rfl,_,rfl,by simp [notSizedTrace,PtyCommand.responder]⟩,
      .inr ⟨rfl,_,rfl,by simp [forcedTrace,PtyCommand.responder]⟩⟩
  have hexchange : Exchange .macos none (prompt eio) (some shell)
      [⟨⟨.resize 80 24 0,5000⟩,.reply notSized⟩,⟨⟨.forceKill 1,5000⟩,.reply forced⟩]
      (notSizedTrace ++ (forcedTrace ++ [])) none :=
    .handled hresized hgives.1 hsettled.1 (.handled hkilled hgives.2 hsettled.2 (.lost (by simp)))
  have hkills : Kills (notSizedTrace ++ (forcedTrace ++ [])) := ⟨42,sigkill,zero,by simp [forcedTrace],by decide⟩
  have hclient : (resize 80 24).Traces
      [⟨⟨.resize 80 24 0,5000⟩,.reply notSized⟩,⟨⟨.forceKill 1,5000⟩,.reply forced⟩] (.ok ()) :=
    .call _ (.call _ (.pure _))
  refine ⟨_,_,hclient,hexchange,?_,hkills,fun htruthful => ?_⟩
  · rintro ⟨process,ret,hslot,hmem,hgood⟩
    cases hslot
    simp only [notSizedTrace,forcedTrace,List.cons_append,List.nil_append,List.mem_cons,List.not_mem_nil,
      or_false] at hmem
    rcases hmem with h | h | h | h | h | h <;> cases h
    exact absurd hgood (by decide)
  · exact (htruthful.1 rfl).spared hkills

end PtyHandle
end NodeRustPty
