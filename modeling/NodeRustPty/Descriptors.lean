import NodeRustPty.CommandLoop
import NodeRustPty.ProcessRules

/-! The descriptors that the command handler opens and closes while the multiplexer keeps
its own copy of the first one. A descriptor stands for one opening here: when the
kernel gives its number out again, that is another descriptor. -/
namespace NodeRustPty

/-- The descriptor that a call reads, writes, controls or closes. -/
def Sys.fd? : Sys → Option ℤ
  | .write fd _ => some fd
  | .read fd _ => some fd
  | .setWinsize fd _ _ => some fd
  | .close fd => some fd
  | _ => none

namespace Descriptors

open CommandHandler

abbrev SysEvent := Prog.Event Sys Sys.Res

/-- The descriptor that a close has closed. -/
def closes : SysEvent → Option ℤ
  | ⟨.close fd,ret⟩ => if ret.value = 0 then some fd else none
  | _ => none

/-- The descriptor that a call has opened. -/
def opens : SysEvent → Option ℤ
  | ⟨.posixOpenpt,ret⟩ => if ret.value < 0 then none else some ret.value
  | ⟨.openSlave _,ret⟩ => if ret.value < 0 then none else some ret.value
  | _ => none

/-- The descriptors that were closed and opened so far. -/
structure Ledger where
  closed : List ℤ
  opened : List ℤ

def Ledger.record (ledger : Ledger) (event : SysEvent) : Ledger :=
  ⟨ledger.closed ++ (closes event).toList,ledger.opened ++ (opens event).toList⟩

@[simp] theorem Ledger.closed_record (ledger : Ledger) (event : SysEvent) :
    (ledger.record event).closed = ledger.closed ++ (closes event).toList := rfl

@[simp] theorem Ledger.opened_record (ledger : Ledger) (event : SysEvent) :
    (ledger.record event).opened = ledger.opened ++ (opens event).toList := rfl

/-- An opening is none of the descriptors so far. -/
def Ledger.Admits (ledger : Ledger) (event : SysEvent) : Prop :=
  ∀ fd, opens event = some fd → fd ∉ ledger.closed ∧ fd ∉ ledger.opened

/-- The commands that use the descriptor of the slot whatever the system answers. -/
def usesSlot : PtyCommand → Bool
  | .write _ _ => true
  | .read _ => true
  | .readAll _ => true
  | .resize _ _ _ => true
  | .execute _ _ => true
  | .close _ => true
  | .forceKill _ => true
  | .closeMasterFd _ => true
  | .shutdownPty _ => true
  | _ => false

/-- The commands that use it once their signal to the process is delivered. -/
def signalsFirst : PtyCommand → Prop
  | .setEnv key value _ => ¬PtyProcess.unsettable key value
  | .changeShell _ _ => True
  | _ => False

/-- Such a signal is not delivered when the descriptor is closed. -/
def Unheard (command : PtyCommand) (masterFd : Option ℤ) (ledger : Ledger) : SysEvent → Prop
  | ⟨.kill _ _,ret⟩ => signalsFirst command → ∀ fd, masterFd = some fd → fd ∈ ledger.closed → ret.value ≠ 0
  | _ => True

/-- Watches the system calls made for a command that found this descriptor in the slot. -/
def monitor (command : PtyCommand) (masterFd : Option ℤ) : Prog.Monitor Sys Sys.Res Ledger where
  allows ledger call := ∀ fd, call.fd? = some fd → fd ∉ ledger.closed
  answers ledger call res ledger' := ledger.Admits ⟨call,res⟩ ∧
    Unheard command masterFd ledger ⟨call,res⟩ ∧ ledger' = ledger.record ⟨call,res⟩

/-! ### The methods of the process -/

section Methods

open ProcessM PtyProcess

variable {command : PtyCommand} {masterFd : Option ℤ}

/-- The descriptor of the process is not closed. -/
def Live (ledger : Ledger) (process : PtyProcess) : Prop := process.masterFd ∉ ledger.closed

/-- Calls that neither open nor close leave the ledger alone. -/
theorem record_eq {ledger : Ledger} {event : SysEvent} (hcloses : closes event = none)
    (hopens : opens event = none) : ledger.record event = ledger := by
  simp [Ledger.record,hcloses,hopens]

theorem triple_quiet {call : Sys} {pre : Ledger → PtyProcess → Prop} (hfd : call.fd? = none)
    (hcloses : ∀ res, closes ⟨call,res⟩ = none) (hopens : ∀ res, opens ⟨call,res⟩ = none) :
    Triple (monitor command masterFd) pre (sys call) fun _ => pre := by
  refine triple_sys ?_ ?_
  · intro ledger process hp fd h
    simp [hfd] at h
  · rintro ledger process res _ hp ⟨-,-,rfl⟩
    rwa [record_eq (hcloses res) (hopens res)]

theorem triple_use {call : Sys} {process : PtyProcess} (hfd : call.fd? = some process.masterFd)
    (hcloses : ∀ res, closes ⟨call,res⟩ = none) (hopens : ∀ res, opens ⟨call,res⟩ = none) :
    Triple (monitor command masterFd) (fun ledger p => Live ledger p ∧ p = process) (sys call)
      fun _ => Live := by
  refine triple_sys ?_ ?_
  · rintro ledger _ ⟨hlive,rfl⟩ fd h
    obtain rfl : _ = fd := Option.some.inj (hfd.symm.trans h)
    exact hlive
  · rintro ledger _ res _ ⟨hlive,rfl⟩ ⟨-,-,rfl⟩
    rwa [record_eq (hcloses res) (hopens res)]

theorem triple_check_any {ret : Ret} {bad : ℤ → Bool} {pre : Ledger → PtyProcess → Prop} :
    Triple (monitor command masterFd) pre (check ret bad) fun _ => pre :=
  triple_check (fun _ _ hp _ => hp) fun _ _ hp _ => hp

theorem triple_writeData (data : Bytes) :
    Triple (monitor command masterFd) Live (writeData data) fun _ => Live :=
  triple_self fun _ => (triple_use rfl (fun _ => rfl) fun _ => rfl).bind
    (fun _ => triple_check_any.bind (fun _ => triple_pure fun _ _ h => h) fun _ _ _ h => h)
    fun _ _ _ h => h

theorem triple_readData (length : ℕ) :
    Triple (monitor command masterFd) Live (readData length) fun _ => Live :=
  triple_self fun _ => (triple_use rfl (fun _ => rfl) fun _ => rfl).bind
    (fun _ => triple_check_any.bind (fun _ => triple_pure fun _ _ h => h) fun _ _ _ h => h)
    fun _ _ _ h => h

theorem triple_resize (cols rows : UInt16) :
    Triple (monitor command masterFd) Live (resize cols rows) fun _ => Live :=
  triple_self fun _ => (triple_use rfl (fun _ => rfl) fun _ => rfl).bind
    (fun _ => triple_check_any) fun _ _ _ h => h

theorem triple_killProcess (signal : Int32) (pre : Ledger → PtyProcess → Prop) :
    Triple (monitor command masterFd) pre (killProcess signal) fun _ => pre :=
  triple_self fun _ => (triple_quiet rfl (fun _ => rfl) fun _ => rfl).bind
    (fun _ => triple_check_any.mono (fun _ _ h => h.1) fun _ _ _ h => h) fun _ _ _ h => h.1

theorem triple_waitpid (options : Int32) (pre : Ledger → PtyProcess → Prop) :
    Triple (monitor command masterFd) pre (waitpid options) fun _ => pre :=
  triple_self fun _ => (triple_quiet rfl (fun _ => rfl) fun _ => rfl).bind
    (fun _ => (triple_check_any.bind (fun _ => triple_pure fun _ _ h => h) fun _ _ _ h => h).mono
      (fun _ _ h => h.1) fun _ _ _ h => h) fun _ _ _ h => h.1

theorem triple_closeMasterFd :
    Triple (monitor command masterFd) Live closeMasterFd fun _ _ _ => True := by
  refine triple_self fun process => ?_
  have hclose : Triple (monitor command masterFd) (fun ledger p => Live ledger p ∧ p = process)
      (closeFd process.masterFd) fun _ _ _ => True := by
    refine triple_sys ?_ fun _ _ _ _ _ _ => trivial
    rintro ledger _ ⟨hlive,rfl⟩ fd h
    obtain rfl := Option.some.inj h
    exact hlive
  exact hclose.bind (fun _ => triple_check_any) fun _ _ _ h => h

theorem triple_tearDown (signal options : Int32) :
    Triple (monitor command masterFd) Live (tearDown signal options) fun _ _ _ => True :=
  (triple_killProcess signal _).attempt.bind
    (fun _ => (triple_waitpid options _).attempt.bind (fun _ => triple_closeMasterFd)
      fun _ _ _ _ => trivial) fun _ _ _ _ => trivial

/-- The process found in the slot, after a signal that was delivered only if its descriptor is
not closed. -/
def Heard (command : PtyCommand) (masterFd : Option ℤ) (delivered : Prop) (ledger : Ledger)
    (process : PtyProcess) : Prop :=
  masterFd = some process.masterFd ∧ (delivered → signalsFirst command → Live ledger process)

theorem triple_kill (signal : Int32) (process : PtyProcess) :
    Triple (monitor command masterFd) (fun _ p => masterFd = some p.masterFd ∧ p = process)
      (sys (.kill process.pid signal))
      fun result => Heard command masterFd (∃ ret : Ret, result = .ok ret ∧ ret.value = 0) := by
  refine triple_sys ?_ ?_
  · intro ledger p hp fd h
    cases h
  · rintro ledger p ret _ ⟨hfd,rfl⟩ ⟨-,hunheard,rfl⟩
    refine ⟨hfd,?_⟩
    rintro ⟨_,⟨⟩,hzero⟩ hsignals hclosed
    rw [record_eq rfl rfl] at hclosed
    exact hunheard hsignals _ hfd hclosed hzero

theorem triple_signal (signal : Int32) :
    Triple (monitor command masterFd) (fun _ p => masterFd = some p.masterFd) (killProcess signal)
      fun result => Heard command masterFd (result = .ok ()) := by
  refine triple_self fun process => (triple_kill signal process).bind (fun ret => ?_) ?_
  · refine triple_check ?_ ?_
    · exact fun _ _ h _ => ⟨h.1,fun hok => by cases hok⟩
    · exact fun _ _ h hgood => ⟨h.1,fun _ => h.2 ⟨ret,rfl,by simpa using hgood⟩⟩
  · exact fun _ _ _ h => ⟨h.1,fun hok => by cases hok⟩

theorem triple_isRunning :
    Triple (monitor command masterFd) (fun _ p => masterFd = some p.masterFd) isRunning
      fun result => Heard command masterFd (result = .ok true) := by
  refine triple_self fun process => (triple_kill 0 process).bind (fun ret => ?_) ?_
  · refine triple_ite (fun hzero => ?_) fun _ => triple_ite (fun _ => triple_ite ?_ ?_) ?_
    · exact triple_pure fun _ _ h => ⟨h.1,fun _ => h.2 ⟨ret,rfl,hzero⟩⟩
    · exact fun _ => triple_pure fun _ _ h => ⟨h.1,fun hok => by cases hok⟩
    · exact fun _ => triple_fail fun _ _ h => ⟨h.1,fun hok => by cases hok⟩
    · exact fun _ => triple_pure fun _ _ h => ⟨h.1,fun hok => by cases hok⟩
  · exact fun _ _ _ h => ⟨h.1,fun hok => by cases hok⟩

theorem triple_status (pre : Ledger → PtyProcess → Prop) :
    Triple (monitor command masterFd) pre status fun _ => pre := by
  refine triple_self fun process => (triple_quiet rfl (fun _ => rfl) fun _ => rfl).bind (fun ret => ?_)
    fun _ _ _ h => h.1
  refine triple_ite ?_ fun _ => triple_ite (fun _ => triple_ite ?_ ?_) ?_
  · exact fun _ => triple_pure fun _ _ h => h.1
  · exact fun _ => triple_pure fun _ _ h => h.1
  · exact fun _ => triple_fail fun _ _ h => h.1
  · exact fun _ => triple_pure fun _ _ h => h.1

theorem triple_setEnv {key value : String} (hsignals : ¬unsettable key value → signalsFirst command) :
    Triple (monitor command masterFd) (fun _ p => masterFd = some p.masterFd) (setEnv key value)
      fun _ _ _ => True := by
  refine triple_isRunning.bind (fun running => ?_) fun _ _ _ _ => trivial
  cases running with
  | false => exact triple_fail fun _ _ _ => trivial
  | true =>
    have hset : Triple (monitor command masterFd)
        (Heard command masterFd ((.ok true : Except IoError Bool) = .ok true))
        (setVar key value) fun _ => Live := by
      refine triple_ite (fun _ => triple_abort) fun hvalid => ?_
      exact (triple_quiet rfl (fun _ => rfl) fun _ => rfl).mono
        (fun _ _ h => h.2 rfl (hsignals hvalid)) fun _ _ _ h => h
    refine hset.bind (fun _ => ?_) fun _ _ _ _ => trivial
    exact (triple_writeData _).bind (fun _ => triple_pure fun _ _ _ => trivial) fun _ _ _ _ => trivial

theorem triple_setLogLevel (level : String) (pre : Ledger → PtyProcess → Prop) :
    Triple (monitor command masterFd) pre (setLogLevel level) fun _ => pre :=
  triple_quiet rfl (fun _ => rfl) fun _ => rfl

/-! ### Opening a new terminal -/

/-- A descriptor that was opened and not closed. -/
def Open (fd : ℤ) (ledger : Ledger) : Prop := fd ∈ ledger.opened ∧ fd ∉ ledger.closed

/-- A call that opens `fd` and closes nothing. -/
theorem triple_open {call : Sys} {pre : Ledger → Prop} (back : call.Res → Ret) (hfd : call.fd? = none)
    (hcloses : ∀ res, closes ⟨call,res⟩ = none)
    (hopens : ∀ res, opens ⟨call,res⟩ = if (back res).value < 0 then none else some (back res).value) :
    Triple (monitor command masterFd) (fun ledger _ => pre ledger) (sys call)
      fun result ledger _ => ∀ res, result = .ok res → ∃ before, pre before ∧
        ledger.closed = before.closed ∧ (∀ fd ∈ before.opened, fd ∈ ledger.opened) ∧
        (0 ≤ (back res).value → Open (back res).value ledger ∧ (back res).value ∉ before.opened) := by
  refine triple_sys ?_ ?_
  · intro ledger p hp fd h
    simp [hfd] at h
  · rintro ledger p res _ hp ⟨hadmits,-,rfl⟩ _ ⟨⟩
    refine ⟨ledger,hp,by simp [hcloses],fun fd h => by simp [h],fun hvalue => ?_⟩
    have hopened : opens ⟨call,res⟩ = some (back res).value := by rw [hopens,if_neg (by omega)]
    obtain ⟨hclosed,hnew⟩ := hadmits _ hopened
    exact ⟨⟨by simp [hopened],by simpa [hcloses] using hclosed⟩,hnew⟩

theorem triple_close {fd : ℤ} {pre : Ledger → PtyProcess → Prop}
    (hpre : ∀ ledger process, pre ledger process → fd ∉ ledger.closed) :
    Triple (monitor command masterFd) pre (closeFd fd)
      fun _ ledger process => ∃ before ret, pre before process ∧ ledger = before.record ⟨.close fd,ret⟩ := by
  refine triple_sys ?_ ?_
  · intro ledger process hp other h
    obtain rfl := Option.some.inj h
    exact hpre ledger process hp
  · rintro ledger process ret _ hp ⟨-,-,rfl⟩
    exact ⟨ledger,ret,hp,rfl⟩

/-- A master and a slave, both open. -/
def OpenFds (fds : ℤ × ℤ) (ledger : Ledger) : Prop :=
  Open fds.1 ledger ∧ Open fds.2 ledger ∧ fds.1 ≠ fds.2

/-- What a successful `open_new_pty` returns. -/
def OpenPair (result : Except IoError (ℤ × ℤ)) (ledger : Ledger) : Prop :=
  ∀ fds, result = .ok fds → OpenFds fds ledger

theorem openPair_error (e : IoError) (ledger : Ledger) : OpenPair (.error e) ledger := by
  rintro _ ⟨⟩

theorem triple_failOpen {fd : ℤ} {e : IoError} :
    Triple (monitor command masterFd) (fun ledger _ => Open fd ledger) (failOpen fd e)
      fun result ledger _ => OpenPair result ledger :=
  (triple_close fun _ _ h => h.2).bind
    (fun _ => triple_fail fun ledger _ _ => openPair_error _ ledger) fun _ _ _ _ => openPair_error _ _

theorem triple_openNewPty :
    Triple (monitor command masterFd) (fun _ _ => True) openNewPty
      fun result ledger _ => OpenPair result ledger := by
  have herror (e : IoError) (ledger : Ledger) (_ : PtyProcess) : OpenPair (.error e) ledger :=
    openPair_error e ledger
  have hopened : Triple (monitor command masterFd) (fun _ _ => True) (sys .posixOpenpt)
      fun result ledger _ => ∀ ret : Ret, result = .ok ret → 0 ≤ ret.value → Open ret.value ledger := by
    refine (triple_open id rfl (fun _ => rfl) fun _ => rfl).mono (fun _ _ h => h) ?_
    intro result ledger _ h ret hret hvalue
    obtain ⟨_,-,-,-,hopen⟩ := h ret hret
    exact (hopen hvalue).1
  refine hopened.bind_ok (fun opened => ?_) herror
  have hgood : Triple (monitor command masterFd) (fun ledger _ => 0 ≤ opened.value → Open opened.value ledger)
      (check opened (· < 0)) fun result ledger _ => ∀ u, result = .ok u → Open opened.value ledger := by
    refine triple_check ?_ ?_
    · rintro _ _ _ _ _ ⟨⟩
    · exact fun _ _ h hgood _ _ => h (by simpa using hgood)
  refine hgood.bind_ok (fun _ => ?_) herror
  refine (triple_quiet rfl (fun _ => rfl) fun _ => rfl).bind (fun granted => ?_) fun _ _ _ _ => openPair_error _ _
  refine triple_ite (fun _ => triple_failOpen) fun _ => ?_
  refine (triple_quiet rfl (fun _ => rfl) fun _ => rfl).bind (fun unlocked => ?_) fun _ _ _ _ => openPair_error _ _
  refine triple_ite (fun _ => triple_failOpen) fun _ => ?_
  refine (triple_quiet rfl (fun _ => rfl) fun _ => rfl).bind (fun named => ?_) fun _ _ _ _ => openPair_error _ _
  refine triple_ite (fun _ => triple_failOpen) fun _ => ?_
  obtain ⟨ret,slaveName⟩ := named
  cases slaveName with
  | none => exact triple_fail fun ledger _ _ => openPair_error _ ledger
  | some slaveName =>
    -- the slave is another descriptor than the master, which stays open
    have hslave : Triple (monitor command masterFd) (fun ledger _ => Open opened.value ledger)
        (sys (.openSlave slaveName)) fun result ledger _ => ∀ slave : Ret, result = .ok slave →
          Open opened.value ledger ∧
            (0 ≤ slave.value → Open slave.value ledger ∧ opened.value ≠ slave.value) := by
      refine (triple_open id rfl (fun _ => rfl) fun _ => rfl).mono (fun _ _ h => h) ?_
      intro result ledger _ h slave hret
      obtain ⟨before,hmaster,hclosed,hkeeps,hopen⟩ := h slave hret
      refine ⟨⟨hkeeps _ hmaster.1,hclosed ▸ hmaster.2⟩,fun hvalue => ⟨(hopen hvalue).1,?_⟩⟩
      rintro heq
      exact (hopen hvalue).2 (by simpa [← heq] using hmaster.1)
    refine hslave.bind_ok (fun slave => triple_ite (fun _ => ?_) fun hvalue => ?_) herror
    · exact triple_failOpen.mono (fun _ _ h => h.1) fun _ _ _ h => h
    · refine triple_pure ?_
      rintro ledger _ ⟨hmaster,hopen⟩ _ ⟨⟩
      obtain ⟨hopen,hne⟩ := hopen (by omega)
      exact ⟨hmaster,hopen,hne⟩

/-- Both descriptors of a new terminal can be closed, one after the other. -/
theorem triple_cleanupFd {fds : ℤ × ℤ} :
    Triple (monitor command masterFd) (fun ledger _ => OpenFds fds ledger)
      (cleanupFd fds.1 fds.2) fun _ _ _ => True := by
  refine (triple_close fun _ _ h => h.1.2).bind (fun _ => ?_) fun _ _ _ _ => trivial
  refine (triple_close ?_).mono (fun _ _ h => h) fun _ _ _ _ => trivial
  rintro _ _ ⟨before,ret,⟨-,hslave,hne⟩,rfl⟩
  have hcloses : fds.2 ∉ closes ⟨.close fds.1,ret⟩ := by
    simp only [closes]
    split <;> simp [hne]
  simpa [hslave.2] using hcloses

theorem triple_spawnNewShell (shellPath : String) :
    Triple (monitor command masterFd) Live (spawnNewShell shellPath) fun _ _ _ => True := by
  refine triple_closeMasterFd.bind (fun _ => ?_) fun _ _ _ _ => trivial
  refine triple_openNewPty.bind_ok (fun fds => ?_) fun _ _ _ => trivial
  obtain ⟨newMasterFd,newSlaveFd⟩ := fds
  have hmodify : Triple (monitor command masterFd) (fun ledger _ => OpenFds (newMasterFd,newSlaveFd) ledger)
      (modify fun process => { process with masterFd := newMasterFd })
      fun _ ledger _ => OpenFds (newMasterFd,newSlaveFd) ledger := triple_modify fun _ _ h => h
  refine hmodify.bind (fun _ => ?_) fun _ _ _ _ => trivial
  refine triple_ite (fun _ => triple_abort) fun _ => ?_
  refine (triple_quiet rfl (fun _ => rfl) fun _ => rfl).bind (fun forked => ?_) fun _ _ _ _ => trivial
  refine triple_ite (fun _ => ?_) fun _ => triple_ite (fun _ => triple_abort) fun _ => ?_
  · exact triple_cleanupFd.bind (fun _ => triple_fail fun _ _ _ => trivial) fun _ _ _ _ => trivial
  · refine (triple_close fun _ _ h => h.2.1.2).bind (fun _ => ?_) fun _ _ _ _ => trivial
    exact triple_modify fun _ _ _ => trivial

theorem triple_changeShell (hsignals : signalsFirst command) (shellPath : String) :
    Triple (monitor command masterFd) (fun _ p => masterFd = some p.masterFd) (changeShell shellPath)
      fun _ _ _ => True := by
  refine (triple_signal sigterm).bind (fun u => ?_) fun _ _ _ _ => trivial
  have hwait : Triple (monitor command masterFd) (Heard command masterFd ((.ok u : Except IoError Unit) = .ok ()))
      (attempt (waitpid 0)) fun _ => Live :=
    (triple_waitpid 0 _).attempt.mono (fun _ _ h => h.2 rfl hsignals) fun _ _ _ h => h
  exact hwait.bind (fun _ => triple_spawnNewShell shellPath) fun _ _ _ _ => trivial

end Methods

/-! ### The handlers -/

/-- The calls that `send_to_session` and `broadcast` make before their write. -/
def writes : TableCall → Bool
  | .sendToSession _ _ => true
  | .broadcast _ => true
  | _ => false

/-- Watches a handler. The multiplexer goes on to its write only if its descriptor is not closed. -/
def handlerMonitor (command : PtyCommand) (masterFd : Option ℤ) (multiplexerFd : ℤ) :
    Prog.Monitor Call Call.Res Ledger where
  allows ledger
    | .sys call => (monitor command masterFd).allows ledger call
    | _ => True
  answers ledger
    | .sys call,res,ledger' => (monitor command masterFd).answers ledger call res ledger'
    | .table call,res,ledger' => ledger' = ledger ∧
      (writes call → res.isOk → multiplexerFd ∉ ledger.closed)
    | .send _ _,_,ledger' => ledger' = ledger

section Handlers

variable {command : PtyCommand} {masterFd : Option ℤ} {multiplexer : PtyMultiplexer} {ledger : Ledger}
  {slot : Slot}

/-- The handler only uses descriptors that are not closed. -/
def Safe {α : Type} (command : PtyCommand) (masterFd : Option ℤ) (multiplexer : PtyMultiplexer)
    (ledger : Ledger) (p : HandlerProg α) : Prop :=
  p.Respects (handlerMonitor command masterFd multiplexer.ptyProcess.masterFd) (fun _ _ => True) ledger

theorem Safe.bind {α β : Type} {p : HandlerProg α} {f : α → HandlerProg β}
    (hp : Safe command masterFd multiplexer ledger p)
    (hf : ∀ ledger a, Safe command masterFd multiplexer ledger (f a)) :
    Safe command masterFd multiplexer ledger (p >>= f) :=
  Prog.Respects.bind hp fun ledger' a _ => hf ledger' a

theorem safe_send {α : Type} {responder : ℕ} {result : PtyResult} {a : α} :
    Safe command masterFd multiplexer ledger (send responder result >>= fun _ => pure a) :=
  ⟨trivial,fun _ _ _ => trivial⟩

theorem safe_answer {α : Type} (slot : Slot) (responder : ℕ) (success : α → PtyResult)
    (failure : String → String) (result : Except IoError α) :
    Safe command masterFd multiplexer ledger (answer slot responder success failure result) := by
  cases result with
  | ok a => exact safe_send
  | error e => exact safe_send

theorem safe_onSystem {α β : Type} {method : ProcessM α} {process : PtyProcess}
    {pre : Ledger → PtyProcess → Prop} {post : Except IoError α → Ledger → PtyProcess → Prop}
    {f : Except IoError α × PtyProcess → HandlerProg β}
    (h : ProcessM.Triple (monitor command masterFd) pre method post)
    (hpre : pre ledger process) (hf : ∀ ledger result, Safe command masterFd multiplexer ledger (f result)) :
    Safe command masterFd multiplexer ledger (onSystem (method process) >>= f) := by
  have hmethod : Safe command masterFd multiplexer ledger (onSystem (method process)) :=
    ((h ledger process hpre).mono fun _ _ _ => trivial).hoist (fun _ _ hallows => hallows) fun _ _ _ _ hanswers => hanswers
  exact hmethod.bind hf

theorem safe_answerProcess {α : Type} {method : ProcessM α} {pre : Ledger → PtyProcess → Prop}
    {post : Except IoError α → Ledger → PtyProcess → Prop} {responder : ℕ} {success : α → PtyResult}
    {failure : String → String} (h : ProcessM.Triple (monitor command masterFd) pre method post)
    (hpre : ∀ process, slot = some process → pre ledger process) :
    Safe command masterFd multiplexer ledger (answerProcess slot method responder success failure) := by
  cases slot with
  | none => exact safe_answer none responder success failure (.error notInitialized)
  | some process => exact safe_onSystem h (hpre process rfl) fun _ _ => safe_answer _ _ _ _ _

theorem safe_answerTaken {signal options : Int32} {absent : Except IoError Unit} {responder : ℕ}
    {success : String} {failure : String → String}
    (hlive : ∀ process, slot = some process → Live ledger process) :
    Safe command masterFd multiplexer ledger
      (answerTaken slot signal options absent responder success failure) := by
  cases slot with
  | none => exact safe_answer _ _ _ _ _
  | some process =>
    exact safe_onSystem (triple_tearDown signal options) (hlive process rfl) fun _ _ => safe_answer _ _ _ _ _

theorem safe_writeProcess {data : Bytes} (h : multiplexer.ptyProcess.masterFd ∉ ledger.closed) :
    Safe command masterFd multiplexer ledger (writeProcess multiplexer data) :=
  safe_onSystem (triple_writeData data) h fun _ _ => trivial

theorem safe_answerMultiplexer {α : Type} {method : PtyMultiplexer → HandlerProg (Except String α)}
    {responder : ℕ} {success : α → String} {failure : String → String} {uninitialized : String}
    (h : Safe command masterFd multiplexer ledger (method multiplexer)) :
    Safe command masterFd multiplexer ledger
      (keeping slot (answerMultiplexer (some multiplexer) method responder success failure uninitialized)) := by
  refine (h.bind fun ledger' result => ?_).bind fun _ _ => trivial
  cases result with
  | ok a => exact ⟨trivial,fun _ _ _ => trivial⟩
  | error reason => exact ⟨trivial,fun _ _ _ => trivial⟩

theorem safe_table (call : TableCall) : Safe command masterFd multiplexer ledger (table call) :=
  ⟨trivial,fun _ _ _ => trivial⟩

theorem safe_sendToSession (sessionId : UInt32) (data : Bytes) :
    Safe command masterFd multiplexer ledger (sendToSession sessionId data multiplexer) := by
  refine ⟨trivial,fun result _ ⟨hledger,hlive⟩ => ?_⟩
  subst hledger
  cases result with
  | ok a => exact safe_writeProcess (hlive rfl rfl)
  | error reason => trivial

theorem safe_broadcast (data : Bytes) :
    Safe command masterFd multiplexer ledger (broadcast data multiplexer) := by
  refine ⟨trivial,fun result _ ⟨hledger,hlive⟩ => ?_⟩
  subst hledger
  cases result with
  | ok a => exact safe_writeProcess (hlive rfl rfl)
  | error reason => trivial

/-- A handler that starts with an empty slot or a live descriptor, as far as it uses it, is safe. -/
theorem safe_handle (hslot : usesSlot command = true → ∀ process, slot = some process → Live ledger process) :
    Safe command (slot.map PtyProcess.masterFd) multiplexer ledger
      (handle (some multiplexer) slot command) := by
  have hmaster : ∀ process, slot = some process → slot.map PtyProcess.masterFd = some process.masterFd := by
    rintro process rfl
    rfl
  cases command with
  | createSession _ | readAllSessions _ | listSessions _ | closeAllSessions _ | removeSession _ _
  | readFromSession _ _ | splitSession _ _ | mergeSessions _ _ =>
    exact safe_answerMultiplexer (safe_table _)
  | broadcast data _ => exact safe_answerMultiplexer (safe_broadcast data)
  | sendToSession sessionId data _ => exact safe_answerMultiplexer (safe_sendToSession sessionId data)
  | close _ | forceKill _ | shutdownPty _ => exact safe_answerTaken (hslot rfl)
  | write data _ => exact safe_answerProcess (triple_writeData data) (hslot rfl)
  | execute _ _ => exact safe_answerProcess (triple_writeData _) (hslot rfl)
  | read _ | readAll _ => exact safe_answerProcess (triple_readData 4096) (hslot rfl)
  | resize cols rows _ => exact safe_answerProcess (triple_resize cols rows) (hslot rfl)
  | closeMasterFd _ => exact safe_answerProcess triple_closeMasterFd (hslot rfl)
  | killProcess signal _ =>
    exact safe_answerProcess (triple_killProcess signal fun _ _ => True) fun _ _ => trivial
  | waitPid options _ =>
    exact safe_answerProcess (triple_waitpid options fun _ _ => True) fun _ _ => trivial
  | status _ => exact safe_answerProcess (triple_status fun _ _ => True) fun _ _ => trivial
  | setLogLevel level _ =>
    exact safe_answerProcess (triple_setLogLevel level fun _ _ => True) fun _ _ => trivial
  | setEnv key value _ => exact safe_answerProcess (triple_setEnv id) hmaster
  | changeShell shellPath _ => exact safe_answerProcess (triple_changeShell (by trivial) shellPath) hmaster

end Handlers

/-! ### The handler and the background reads -/

/-- The thread of the command handler, with the slot that its command found. -/
inductive Handler
  | idle (slot : Slot)
  | busy (slot : Slot) (command : PtyCommand) (rest : HandlerProg Slot)
  | ended

/-- All system calls so far are in the trace. -/
structure State where
  handler : Handler
  trace : List SysEvent

inductive Label
  | take (command : PtyCommand)
  | sys (event : SysEvent)
  | table (call : TableCall) (res : Except String call.Value)
  | send (responder : ℕ) (result : PtyResult)
  | finish
  | abort
  | backgroundRead (answer : Ret × Bytes)

/-- The descriptors after a trace that starts with one open. -/
def ledger (masterFd : ℤ) (trace : List SysEvent) : Ledger :=
  ⟨trace.filterMap closes,masterFd::trace.filterMap opens⟩

/-- No call reads, writes, controls or closes a descriptor after a close of it. -/
def NeverUsesClosed (trace : List SysEvent) : Prop :=
  ∀ before event after, trace = before ++ event::after →
    ∀ fd, event.1.fd? = some fd → fd ∉ before.filterMap closes

def start (process : PtyProcess) : State := ⟨.idle (some process),[]⟩

section Runs

variable (multiplexer : PtyMultiplexer) (masterFd : ℤ)

inductive Step : State → Label → State → Prop
  | take {s : State} {slot : Slot} (command : PtyCommand) (hidle : s.handler = .idle slot) :
      Step s (.take command)
        { s with handler := .busy slot command (handle (some multiplexer) slot command) }
  | sys {s : State} {slot : Slot} {command : PtyCommand} {call : Sys} {next : call.Res → HandlerProg Slot}
      (res : call.Res) (hbusy : s.handler = .busy slot command (.call (.sys call) next))
      (hadmits : (ledger masterFd s.trace).Admits ⟨call,res⟩) :
      Step s (.sys ⟨call,res⟩) ⟨.busy slot command (next res),s.trace ++ [⟨call,res⟩]⟩
  | table {s : State} {slot : Slot} {command : PtyCommand} {call : TableCall}
      {next : Except String call.Value → HandlerProg Slot} (res : Except String call.Value)
      (hbusy : s.handler = .busy slot command (.call (.table call) next)) :
      Step s (.table call res) { s with handler := .busy slot command (next res) }
  | send {s : State} {slot : Slot} {command : PtyCommand} {responder : ℕ} {result : PtyResult}
      {next : Unit → HandlerProg Slot}
      (hbusy : s.handler = .busy slot command (.call (.send responder result) next)) :
      Step s (.send responder result) { s with handler := .busy slot command (next ()) }
  | finish {s : State} {slot slot' : Slot} {command : PtyCommand}
      (hbusy : s.handler = .busy slot command (.pure slot')) :
      Step s .finish { s with handler := if command.isShutdown then .ended else .idle slot' }
  | abort {s : State} {slot : Slot} {command : PtyCommand} {message : String}
      (hbusy : s.handler = .busy slot command (.panic message)) :
      Step s .abort { s with handler := .ended }
  /-- The read of `read_and_dispatch` in a background task. -/
  | backgroundRead {s : State} (answer : Ret × Bytes) :
      Step s (.backgroundRead answer)
        { s with trace := s.trace ++ [⟨.read multiplexer.ptyProcess.masterFd 4096,answer⟩] }

/-- What a step may not do with a descriptor that was closed: take a command that uses the one of
the slot, deliver the signal after which a command uses it, get past the session table to the
multiplexer's write, or start a background read. -/
def Careful (s : State) : Label → Prop
  | .take command => usesSlot command = true → ∀ process, s.handler = .idle (some process) →
    process.masterFd ∉ s.trace.filterMap closes
  | .sys event => ∀ slot command rest, s.handler = .busy slot command rest →
    Unheard command (slot.map PtyProcess.masterFd) (ledger masterFd s.trace) event
  | .table call res => writes call = true → res.isOk = true →
    multiplexer.ptyProcess.masterFd ∉ s.trace.filterMap closes
  | .backgroundRead _ => multiplexer.ptyProcess.masterFd ∉ s.trace.filterMap closes
  | _ => True

/-- The runs of any steps. -/
abbrev Run : State → State → Prop :=
  Relation.ReflTransGen fun s s' => ∃ label, Step multiplexer masterFd s label s'

/-- The runs of careful steps. -/
abbrev CarefulRun : State → State → Prop :=
  Relation.ReflTransGen fun s s' =>
    ∃ label, Careful multiplexer masterFd s label ∧ Step multiplexer masterFd s label s'

variable {multiplexer masterFd} {s s' : State}

theorem ledger_concat (trace : List SysEvent) (event : SysEvent) :
    ledger masterFd (trace ++ [event]) = (ledger masterFd trace).record event := by
  have hfilter (f : SysEvent → Option ℤ) : List.filterMap f [event] = (f event).toList := by
    cases h : f event <;> simp [h]
  simp [ledger,Ledger.record,hfilter]

theorem NeverUsesClosed.concat {trace : List SysEvent} {event : SysEvent} (h : NeverUsesClosed trace)
    (hevent : ∀ fd, event.1.fd? = some fd → fd ∉ trace.filterMap closes) :
    NeverUsesClosed (trace ++ [event]) := by
  intro before other after heq
  rcases List.eq_nil_or_concat after with rfl | ⟨rest,last,rfl⟩
  · obtain ⟨rfl,hother⟩ := List.append_inj' heq rfl
    obtain rfl := List.singleton_injective hother
    exact hevent
  · have hsplit : trace ++ [event] = (before ++ other::rest) ++ [last] := by simpa using heq
    obtain ⟨htrace,-⟩ := List.append_inj' hsplit rfl
    exact h before other rest htrace

/-- The handler goes on safely and has done so far. -/
structure Invariant (multiplexer : PtyMultiplexer) (masterFd : ℤ) (s : State) : Prop where
  trace : NeverUsesClosed s.trace
  busy : ∀ slot command rest, s.handler = .busy slot command rest →
    Safe command (slot.map PtyProcess.masterFd) multiplexer (ledger masterFd s.trace) rest

theorem step_invariant {label : Label} (h : Step multiplexer masterFd s label s')
    (hcareful : Careful multiplexer masterFd s label) (hs : Invariant multiplexer masterFd s) :
    Invariant multiplexer masterFd s' := by
  obtain ⟨htrace,hbusy⟩ := hs
  cases h with
  | @take slot command hidle =>
    refine ⟨htrace,?_⟩
    rintro _ _ _ ⟨⟩
    refine safe_handle fun huses process hprocess => ?_
    subst hprocess
    exact hcareful huses process hidle
  | @sys slot command call next res hb hadmits =>
    obtain ⟨hallows,hnext⟩ := hbusy _ _ _ hb
    refine ⟨htrace.concat hallows,?_⟩
    rintro _ _ _ ⟨⟩
    have hafter := hnext res _ ⟨hadmits,hcareful _ _ _ hb,rfl⟩
    rwa [← ledger_concat] at hafter
  | @table slot command call next res hb =>
    obtain ⟨-,hnext⟩ := hbusy _ _ _ hb
    refine ⟨htrace,?_⟩
    rintro _ _ _ ⟨⟩
    exact hnext res _ ⟨rfl,hcareful⟩
  | send hb =>
    obtain ⟨-,hnext⟩ := hbusy _ _ _ hb
    refine ⟨htrace,?_⟩
    rintro _ _ _ ⟨⟩
    exact hnext () _ rfl
  | finish hb =>
    refine ⟨htrace,fun slot command rest hh => ?_⟩
    split at hh <;> cases hh
  | abort hb =>
    refine ⟨htrace,fun slot command rest hh => ?_⟩
    cases hh
  | backgroundRead answer =>
    refine ⟨htrace.concat ?_,fun slot command rest hh => ?_⟩
    · rintro fd ⟨⟩
      exact hcareful
    · rw [ledger_concat,record_eq rfl rfl]
      exact hbusy slot command rest hh

/-- In a run of careful steps no call is made on a descriptor after it was closed. -/
theorem run_neverUsesClosed (multiplexer : PtyMultiplexer) (process : PtyProcess) (s : State)
    (h : CarefulRun multiplexer process.masterFd (start process) s) : NeverUsesClosed s.trace := by
  have hinvariant : Invariant multiplexer process.masterFd s := by
    induction h with
    | refl =>
      refine ⟨?_,fun slot command rest hh => by cases hh⟩
      intro before event after heq
      simp [start] at heq
    | tail _ hstep ih =>
      obtain ⟨label,hcareful,hstep⟩ := hstep
      exact step_invariant hstep hcareful ih
  exact hinvariant.trace

end Runs

/-- A call that returns zero. -/
def zero : Ret := ⟨0,⟨none,""⟩⟩

/-- The calls of `Close` on descriptor `5` of process `42`. -/
def closeCalls : List SysEvent :=
  [⟨.kill 42 sigterm,zero⟩,⟨.waitpid 42 wnohang,zero⟩,⟨.close 5,zero⟩]

theorem careful_close (masterFd : ℤ) : ∃ handler,
    CarefulRun ⟨⟨5,42,"sh"⟩⟩ masterFd (start ⟨5,42,"sh"⟩) ⟨handler,closeCalls⟩ := by
  refine ⟨_,.tail (.tail (.tail (.tail .refl ⟨.take (.close 0),?_,.take _ rfl⟩)
    ⟨.sys ⟨.kill 42 sigterm,zero⟩,?_,.sys _ rfl ?_⟩)
    ⟨.sys ⟨.waitpid 42 wnohang,zero⟩,?_,.sys _ rfl ?_⟩)
    ⟨.sys ⟨.close 5,zero⟩,?_,.sys _ rfl ?_⟩⟩
  · intro _ process _
    simp [start]
  · rintro _ _ _ ⟨⟩ ⟨⟩
  · rintro fd ⟨⟩
  · rintro _ _ _ ⟨⟩
    trivial
  · rintro fd ⟨⟩
  · rintro _ _ _ ⟨⟩
    trivial
  · rintro fd ⟨⟩

theorem run_neverUsesClosed_close : NeverUsesClosed closeCalls :=
  have ⟨_,hclose⟩ := careful_close 5
  run_neverUsesClosed ⟨⟨5,42,"sh"⟩⟩ ⟨5,42,"sh"⟩ _ hclose

/-- After `Close` the multiplexer's copy is read in the background all the same. -/
theorem run_usesClosed : ∃ s : State, Run ⟨⟨5,42,"sh"⟩⟩ 5 (start ⟨5,42,"sh"⟩) s ∧
    ¬NeverUsesClosed s.trace := by
  obtain ⟨handler,hclose⟩ := careful_close 5
  have hrun : Run ⟨⟨5,42,"sh"⟩⟩ 5 (start ⟨5,42,"sh"⟩) ⟨handler,closeCalls⟩ :=
    Relation.ReflTransGen.mono (fun _ _ ⟨label,_,hstep⟩ => ⟨label,hstep⟩) _ _ hclose
  refine ⟨_,hrun.tail ⟨_,.backgroundRead (⟨-1,⟨some 9,"Bad file descriptor (os error 9)"⟩⟩,[])⟩,?_⟩
  intro h
  exact h closeCalls ⟨.read 5 4096,_⟩ [] rfl 5 rfl (by decide)

end Descriptors
end NodeRustPty
