import NodeRustPty.ProcessRules
import NodeRustPty.PtyService

/-! The processes that the command handler signals and waits for: always the child that it
forked last, and not after a wait has returned this child, unless a `WaitPid` or a failed
`ChangeShell` came before. -/
namespace NodeRustPty

/-- The process that a call signals or waits for. -/
def Sys.pid? : Sys → Option ℤ
  | .kill pid _ => some pid
  | .waitpid pid _ => some pid
  | _ => none

/-- The last child, and whether a wait has returned it. -/
structure Child where
  pid : ℤ
  reaped : Bool

namespace Child

/-- In the parent a `fork` returns the new child. -/
def record (child : Child) : Prog.Event Sys Sys.Res → Child
  | ⟨.fork,ret⟩ => if ret.value = -1 ∨ ret.value = 0 then child else ⟨ret.value,false⟩
  | ⟨.waitpid _ _,ret⟩ => if ret.value = child.pid then ⟨child.pid,true⟩ else child
  | _ => child

/-- Of what the handler calls, only the system matters here. -/
def note (child : Child) : Prog.Event Call Call.Res → Child
  | ⟨.sys call,res⟩ => child.record ⟨call,res⟩
  | _ => child

/-- The calls that leave the child as it is. -/
def Spares (call : Sys) : Prop := call.pid? = none ∧ ∀ child res, record child ⟨call,res⟩ = child

@[simp] theorem record_waitpid_pid (child : Child) (pid : ℤ) (options : Int32) (ret : Ret) :
    (child.record ⟨.waitpid pid options,ret⟩).pid = child.pid := by
  change (if ret.value = child.pid then ⟨child.pid,true⟩ else child : Child).pid = child.pid
  split <;> rfl

theorem record_fork {ret : Ret} (child : Child) (hfailed : ret.value ≠ -1) (hchild : ret.value ≠ 0) :
    child.record ⟨.fork,ret⟩ = ⟨ret.value,false⟩ := if_neg (by simp [hfailed,hchild])

/-- The process is that of the child, which no wait has returned as long as `careful` holds. -/
def Fresh (careful : Prop) (child : Child) (process : PtyProcess) : Prop :=
  process.pid = child.pid ∧ (careful → child.reaped = false)

/-- Watches whom the calls name. -/
def monitor (careful : Prop) : Prog.Monitor Sys Sys.Res Child where
  allows child call := ∀ pid, call.pid? = some pid → pid = child.pid ∧ (careful → child.reaped = false)
  answers child call res child' := child' = child.record ⟨call,res⟩

/-! ### The methods of the process -/

section Methods

open CommandHandler ProcessM PtyProcess

variable {careful : Prop} {pre : Child → PtyProcess → Prop}

theorem triple_spares {call : Sys} (h : Spares call) :
    Triple (monitor careful) pre (sys call) fun _ => pre := by
  refine triple_sys ?_ ?_
  · intro child process hp pid hpid
    simp [h.1] at hpid
  · rintro child process res _ hp rfl
    rwa [h.2]

theorem triple_check_any {ret : Ret} {bad : ℤ → Bool} :
    Triple (monitor careful) pre (check ret bad) fun _ => pre :=
  triple_check (fun _ _ hp _ => hp) fun _ _ hp _ => hp

/-- A method that reads the process only for its calls. -/
theorem triple_reads {α : Type} {f : PtyProcess → ProcessM α} {post : Except IoError α → Child → PtyProcess → Prop}
    (h : ∀ process, Triple (monitor careful) pre (f process) post) :
    Triple (monitor careful) pre (self >>= f) post :=
  triple_self fun process => (h process).mono (fun _ _ hp => hp.1) fun _ _ _ hp => hp

theorem triple_writeData (data : Bytes) : Triple (monitor careful) pre (writeData data) fun _ => pre :=
  triple_reads fun _ => (triple_spares ⟨rfl,fun _ _ => rfl⟩).bind
    (fun _ => triple_check_any.bind (fun _ => triple_pure fun _ _ hp => hp) fun _ _ _ hp => hp)
    fun _ _ _ hp => hp

theorem triple_readData (length : ℕ) : Triple (monitor careful) pre (readData length) fun _ => pre :=
  triple_reads fun _ => (triple_spares ⟨rfl,fun _ _ => rfl⟩).bind
    (fun _ => triple_check_any.bind (fun _ => triple_pure fun _ _ hp => hp) fun _ _ _ hp => hp)
    fun _ _ _ hp => hp

theorem triple_resize (cols rows : UInt16) :
    Triple (monitor careful) pre (resize cols rows) fun _ => pre :=
  triple_reads fun _ => (triple_spares ⟨rfl,fun _ _ => rfl⟩).bind (fun _ => triple_check_any)
    fun _ _ _ hp => hp

theorem triple_closeFd (fd : ℤ) : Triple (monitor careful) pre (closeFd fd) fun _ => pre :=
  triple_spares ⟨rfl,fun _ _ => rfl⟩

theorem triple_closeMasterFd : Triple (monitor careful) pre closeMasterFd fun _ => pre :=
  triple_reads fun _ => (triple_closeFd _).bind (fun _ => triple_check_any) fun _ _ _ hp => hp

theorem triple_kill (signal : Int32) (process : PtyProcess) :
    Triple (monitor careful) (fun child p => Fresh careful child p ∧ p = process)
      (sys (.kill process.pid signal)) fun _ => Fresh careful := by
  refine triple_sys ?_ ?_
  · rintro child _ ⟨hfresh,rfl⟩ pid ⟨⟩
    exact hfresh
  · rintro child _ res _ ⟨hfresh,rfl⟩ rfl
    exact hfresh

theorem triple_killProcess (signal : Int32) :
    Triple (monitor careful) (Fresh careful) (killProcess signal) fun _ => Fresh careful :=
  triple_self fun _ => (triple_kill signal _).bind (fun _ => triple_check_any) fun _ _ _ hp => hp

/-- A wait may return the child. -/
theorem triple_waitpid (options : Int32) :
    Triple (monitor careful) (Fresh careful) (waitpid options)
      fun _ child process => process.pid = child.pid := by
  refine triple_self fun process => ?_
  have hwait : Triple (monitor careful) (fun child p => Fresh careful child p ∧ p = process)
      (sys (.waitpid process.pid options)) fun _ child process => process.pid = child.pid := by
    refine triple_sys ?_ ?_
    · rintro child _ ⟨hfresh,rfl⟩ pid ⟨⟩
      exact hfresh
    · rintro child _ (res : Ret) _ ⟨hfresh,rfl⟩ rfl
      rw [record_waitpid_pid]
      exact hfresh.1
  refine hwait.bind (fun _ => ?_) fun _ _ _ hp => hp
  exact triple_check_any.bind (fun _ => triple_pure fun _ _ hp => hp) fun _ _ _ hp => hp

theorem triple_isRunning : Triple (monitor careful) (Fresh careful) isRunning fun _ => Fresh careful := by
  refine triple_self fun _ => (triple_kill 0 _).bind (fun _ => ?_) fun _ _ _ hp => hp
  refine triple_ite (fun _ => triple_pure ?_) fun _ => triple_ite (fun _ => triple_ite ?_ ?_) ?_
  · exact fun _ _ hp => hp
  · exact fun _ => triple_pure fun _ _ hp => hp
  · exact fun _ => triple_fail fun _ _ hp => hp
  · exact fun _ => triple_pure fun _ _ hp => hp

theorem triple_status : Triple (monitor careful) (Fresh careful) status fun _ => Fresh careful := by
  refine triple_self fun _ => (triple_kill 0 _).bind (fun _ => ?_) fun _ _ _ hp => hp
  refine triple_ite (fun _ => triple_pure ?_) fun _ => triple_ite (fun _ => triple_ite ?_ ?_) ?_
  · exact fun _ _ hp => hp
  · exact fun _ => triple_pure fun _ _ hp => hp
  · exact fun _ => triple_fail fun _ _ hp => hp
  · exact fun _ => triple_pure fun _ _ hp => hp

theorem triple_setEnv (key value : String) :
    Triple (monitor careful) (Fresh careful) (setEnv key value) fun _ => Fresh careful := by
  refine triple_isRunning.bind (fun running => ?_) fun _ _ _ hp => hp
  cases running with
  | false => exact triple_fail fun _ _ hp => hp
  | true =>
    have hset : Triple (monitor careful) (Fresh careful) (setVar key value) fun _ => Fresh careful :=
      triple_ite (fun _ => triple_abort) fun _ => triple_spares ⟨rfl,fun _ _ => rfl⟩
    refine hset.bind (fun _ => ?_) fun _ _ _ hp => hp
    exact (triple_writeData _).bind (fun _ => triple_pure fun _ _ hp => hp) fun _ _ _ hp => hp

theorem triple_setLogLevel (level : String) :
    Triple (monitor careful) pre (setLogLevel level) fun _ => pre :=
  triple_spares ⟨rfl,fun _ _ => rfl⟩

/-- After a signal and a wait the process has left the slot. -/
theorem triple_tearDown (signal options : Int32) :
    Triple (monitor careful) (Fresh careful) (tearDown signal options) fun _ _ _ => True :=
  (triple_killProcess signal).attempt.bind
    (fun _ => (triple_waitpid options).attempt.bind
      (fun _ => triple_closeMasterFd.mono (fun _ _ hp => hp) fun _ _ _ _ => trivial)
      fun _ _ _ _ => trivial) fun _ _ _ _ => trivial

theorem triple_failOpen (masterFd : ℤ) (e : IoError) :
    Triple (monitor careful) pre (failOpen masterFd e) fun _ => pre :=
  (triple_closeFd masterFd).bind (fun _ => triple_fail fun _ _ hp => hp) fun _ _ _ hp => hp

theorem triple_openNewPty : Triple (monitor careful) pre openNewPty fun _ => pre := by
  refine (triple_spares ⟨rfl,fun _ _ => rfl⟩).bind (fun opened => ?_) fun _ _ _ hp => hp
  refine triple_check_any.bind (fun _ => ?_) fun _ _ _ hp => hp
  refine (triple_spares ⟨rfl,fun _ _ => rfl⟩).bind (fun granted => ?_) fun _ _ _ hp => hp
  refine triple_ite (fun _ => triple_failOpen _ _) fun _ => ?_
  refine (triple_spares ⟨rfl,fun _ _ => rfl⟩).bind (fun unlocked => ?_) fun _ _ _ hp => hp
  refine triple_ite (fun _ => triple_failOpen _ _) fun _ => ?_
  refine (triple_spares ⟨rfl,fun _ _ => rfl⟩).bind (fun named => ?_) fun _ _ _ hp => hp
  refine triple_ite (fun _ => triple_failOpen _ _) fun _ => ?_
  obtain ⟨ret,slaveName⟩ := named
  cases slaveName with
  | none => exact triple_fail fun _ _ hp => hp
  | some slaveName =>
    refine (triple_spares ⟨rfl,fun _ _ => rfl⟩).bind (fun slave => ?_) fun _ _ _ hp => hp
    exact triple_ite (fun _ => triple_failOpen _ _) fun _ => triple_pure fun _ _ hp => hp

/-- A process that stands for the last child, and after a success for one that is new. -/
def Renewed (result : Except IoError Unit) (child : Child) (process : PtyProcess) : Prop :=
  process.pid = child.pid ∧ (result = .ok () → child.reaped = false)

theorem renewed_error {e : IoError} {child : Child} {process : PtyProcess} (h : process.pid = child.pid) :
    Renewed (.error e) child process := ⟨h,fun hok => by cases hok⟩

theorem triple_spawnNewShell (shellPath : String) :
    Triple (monitor careful) (fun child process => process.pid = child.pid) (spawnNewShell shellPath)
      Renewed := by
  refine triple_closeMasterFd.bind (fun _ => ?_) fun _ _ _ => renewed_error
  refine triple_openNewPty.bind (fun fds => ?_) fun _ _ _ => renewed_error
  obtain ⟨newMasterFd,newSlaveFd⟩ := fds
  have hmodify : Triple (monitor careful) (fun child process => process.pid = child.pid)
      (modify fun process => { process with masterFd := newMasterFd })
      fun _ child process => process.pid = child.pid := triple_modify fun _ _ h => h
  refine hmodify.bind (fun _ => ?_) fun _ _ _ => renewed_error
  refine triple_ite (fun _ => triple_abort) fun _ => ?_
  -- the process gets the pid of the child only after the fork
  have hfork : Triple (monitor careful) (fun child process => process.pid = child.pid) (sys .fork)
      fun result child process => ∃ ret : Ret, result = .ok ret ∧
        if ret.value = -1 ∨ ret.value = 0 then process.pid = child.pid else child = ⟨ret.value,false⟩ := by
    refine triple_sys (fun _ _ _ _ hpid => by cases hpid) ?_
    rintro child process ret _ hown rfl
    refine ⟨ret,rfl,?_⟩
    change if _ then process.pid = (if _ then child else _ : Child).pid else (if _ then child else _) = _
    split
    · exact hown
    · rfl
  refine hfork.bind (fun forked => ?_) fun _ _ _ h => by simp at h
  refine triple_ite (fun hfailed => ?_) fun hfailed => triple_ite (fun _ => triple_abort) fun hchild => ?_
  · have hclean : Triple (monitor careful) (fun child process => process.pid = child.pid)
        (cleanupFd newMasterFd newSlaveFd) fun _ child process => process.pid = child.pid :=
      (triple_closeFd _).bind (fun _ => triple_closeFd _) fun _ _ _ hp => hp
    refine (hclean.mono ?_ fun _ _ _ hp => hp).bind
      (fun _ => triple_fail fun _ _ => renewed_error) fun _ _ _ => renewed_error
    rintro child process ⟨_,⟨⟩,h⟩
    rwa [if_pos (.inl hfailed)] at h
  · have hslave : Triple (monitor careful) (fun child _ => child = ⟨forked.value,false⟩) (closeFd newSlaveFd)
        fun result child _ => ∃ ret : Ret, result = .ok ret ∧ child = ⟨forked.value,false⟩ := by
      refine triple_sys (fun _ _ _ _ hpid => by cases hpid) ?_
      rintro child process ret _ hchild rfl
      exact ⟨ret,rfl,hchild⟩
    refine (hslave.mono ?_ fun _ _ _ hp => hp).bind (fun _ => triple_modify ?_) fun _ _ _ h => by simp at h
    · rintro child process ⟨_,⟨⟩,h⟩
      rwa [if_neg (by simp [hfailed,hchild])] at h
    · rintro child process ⟨_,-,rfl⟩
      exact ⟨rfl,fun _ => rfl⟩

theorem triple_changeShell (shellPath : String) :
    Triple (monitor careful) (Fresh careful) (changeShell shellPath) Renewed := by
  refine (triple_killProcess sigterm).bind (fun _ => ?_) fun _ _ _ h => renewed_error h.1
  exact (triple_waitpid 0).attempt.bind (fun _ => triple_spawnNewShell shellPath) fun _ _ _ => renewed_error

end Methods

/-! ### The handlers -/

section Handlers

open CommandHandler

variable {careful : Prop} {changes : ℕ → Prop} {child : Child} {slot : Slot}

/-- Watches a handler. As long as `careful` holds, the responders in `changes` get no failure. -/
def handlerMonitor (careful : Prop) (changes : ℕ → Prop) : Prog.Monitor Call Call.Res Child where
  allows child
    | .sys call => (monitor careful).allows child call
    | _ => True
  answers child
    | .sys call,res,child' => (monitor careful).answers child call res child'
    | .table _,_,child' => child' = child
    | .send responder result,_,child' => child' = child ∧
      (careful → changes responder → ∀ reason, result ≠ .failure reason)

/-- A process in the slot is that of the child. -/
def FreshSlot (careful : Prop) (child : Child) (slot : Slot) : Prop :=
  ∀ process, slot = some process → Fresh careful child process

theorem freshSlot_none : FreshSlot careful child none := fun _ h => by cases h

theorem freshSlot_some {process : PtyProcess} (h : Fresh careful child process) :
    FreshSlot careful child (some process) := by
  rintro _ ⟨⟩
  exact h

/-- The program ends with the slot of the last child. -/
def Follows (careful : Prop) (changes : ℕ → Prop) (child : Child) (p : HandlerProg Slot) : Prop :=
  p.Respects (handlerMonitor careful changes) (FreshSlot careful) child

/-- The result is sent, and the slot is as good as the answer lets it be. -/
theorem follows_send {responder : ℕ} {result : PtyResult}
    (h : (careful → changes responder → ∀ reason, result ≠ .failure reason) → FreshSlot careful child slot) :
    Follows careful changes child (send responder result >>= fun _ => pure slot) :=
  ⟨trivial,fun _ _ hsend => hsend.1 ▸ h hsend.2⟩

theorem follows_answer {α : Type} {responder : ℕ} {success : α → PtyResult} {failure : String → String}
    {result : Except IoError α} (hok : ∀ a, result = .ok a → FreshSlot careful child slot)
    (herror : ∀ e, result = .error e → (careful → ¬changes responder) → FreshSlot careful child slot) :
    Follows careful changes child (answer slot responder success failure result) := by
  cases result with
  | ok a => exact follows_send fun _ => hok a rfl
  | error e => exact follows_send fun h => herror e rfl fun hcareful hchanges => h hcareful hchanges _ rfl

theorem follows_onSystem {α : Type} {method : ProcessM α} {process : PtyProcess}
    {pre : Child → PtyProcess → Prop} {post : Except IoError α → Child → PtyProcess → Prop}
    {f : Except IoError α × PtyProcess → HandlerProg Slot}
    (h : ProcessM.Triple (monitor careful) pre method post) (hpre : pre child process)
    (hf : ∀ child result, post result.1 child result.2 → Follows careful changes child (f result)) :
    Follows careful changes child (onSystem (method process) >>= f) := by
  have hmethod : (onSystem (method process)).Respects (handlerMonitor careful changes)
      (fun child result => post result.1 child result.2) child :=
    (h child process hpre).hoist (fun _ _ hallows => hallows) fun _ _ _ _ hanswers => hanswers
  exact hmethod.bind hf

theorem follows_answerProcess {α : Type} {method : ProcessM α} {responder : ℕ} {success : α → PtyResult}
    {failure : String → String} {post : Except IoError α → Child → PtyProcess → Prop}
    (hslot : FreshSlot careful child slot) (h : ProcessM.Triple (monitor careful) (Fresh careful) method post)
    (hok : ∀ a child process, post (.ok a) child process → Fresh careful child process)
    (herror : ∀ e child process, post (.error e) child process → (careful → ¬changes responder) →
      Fresh careful child process) :
    Follows careful changes child (answerProcess slot method responder success failure) := by
  cases slot with
  | none =>
    have hanswer : Follows careful changes child
        (answer none responder success failure (.error notInitialized)) :=
      follows_answer (fun _ _ => freshSlot_none) fun _ _ _ => freshSlot_none
    exact hanswer
  | some process =>
    refine follows_onSystem h (hslot process rfl) ?_
    rintro child ⟨result,process⟩ hpost
    refine follows_answer ?_ ?_
    · rintro a rfl
      exact freshSlot_some (hok a child process hpost)
    · rintro e rfl hfails
      exact freshSlot_some (herror e child process hpost hfails)

/-- A method after which the process is that of the child, whatever it returns. -/
theorem follows_fresh {α : Type} {method : ProcessM α} {responder : ℕ} {success : α → PtyResult}
    {failure : String → String} (hslot : FreshSlot careful child slot)
    (h : ProcessM.Triple (monitor careful) (Fresh careful) method fun _ => Fresh careful) :
    Follows careful changes child (answerProcess slot method responder success failure) :=
  follows_answerProcess hslot h (fun _ _ _ hfresh => hfresh) fun _ _ _ hfresh _ => hfresh

theorem follows_answerTaken {signal options : Int32} {absent : Except IoError Unit} {responder : ℕ}
    {success : String} {failure : String → String} (hslot : FreshSlot careful child slot) :
    Follows careful changes child (answerTaken slot signal options absent responder success failure) := by
  cases slot with
  | none => exact follows_answer (fun _ _ => freshSlot_none) fun _ _ _ => freshSlot_none
  | some process =>
    refine follows_onSystem (triple_tearDown signal options) (hslot process rfl) fun child result _ => ?_
    exact follows_answer (fun _ _ => freshSlot_none) fun _ _ _ => freshSlot_none

/-- A method of the multiplexer names no process. -/
def Spared {α : Type} (careful : Prop) (changes : ℕ → Prop) (child : Child) (p : HandlerProg α) : Prop :=
  p.Respects (handlerMonitor careful changes) (fun child' _ => child' = child) child

theorem spared_table (call : TableCall) : Spared careful changes child (table call) :=
  ⟨trivial,fun _ _ h => h⟩

theorem spared_writeProcess (multiplexer : PtyMultiplexer) (data : Bytes) :
    Spared careful changes child (writeProcess multiplexer data) := by
  have hdata : ProcessM.Triple (monitor careful) (fun child' _ => child' = child)
      (PtyProcess.writeData data) fun _ child' _ => child' = child := triple_writeData data
  have hwrite : (onSystem (PtyProcess.writeData data multiplexer.ptyProcess)).Respects
      (handlerMonitor careful changes) (fun child' _ => child' = child) child :=
    (hdata child multiplexer.ptyProcess rfl).hoist (fun _ _ hallows => hallows)
      fun _ _ _ _ hanswers => hanswers
  exact hwrite.bind fun _ _ h => h

theorem spared_sendToSession (sessionId : UInt32) (data : Bytes) (multiplexer : PtyMultiplexer) :
    Spared careful changes child (sendToSession sessionId data multiplexer) := by
  refine (spared_table _).bind fun _ result h => ?_
  subst h
  cases result with
  | ok a => exact spared_writeProcess multiplexer data
  | error reason => exact (rfl : _ = _)

theorem spared_broadcast (data : Bytes) (multiplexer : PtyMultiplexer) :
    Spared careful changes child (broadcast data multiplexer) := by
  refine (spared_table _).bind fun _ result h => ?_
  subst h
  cases result with
  | ok a => exact spared_writeProcess multiplexer data
  | error reason => exact (rfl : _ = _)

theorem follows_keeping {α : Type} {multiplexer : Option PtyMultiplexer}
    {method : PtyMultiplexer → HandlerProg (Except String α)} {responder : ℕ} {success : α → String}
    {failure : String → String} {uninitialized : String} (hslot : FreshSlot careful child slot)
    (hmethod : ∀ m, Spared careful changes child (method m)) :
    Follows careful changes child
      (keeping slot (answerMultiplexer multiplexer method responder success failure uninitialized)) := by
  cases multiplexer with
  | none => exact follows_send fun _ => hslot
  | some multiplexer =>
    unfold keeping answerMultiplexer
    rw [bind_assoc]
    refine (hmethod multiplexer).bind fun _ result h => ?_
    subst h
    cases result with
    | ok a => exact follows_send fun _ => hslot
    | error reason => exact follows_send fun _ => hslot

/-- Every handler leaves in the slot the process of the last child. -/
theorem follows_handle {command : PtyCommand} (multiplexer : Option PtyMultiplexer)
    (hslot : FreshSlot careful child slot) (hwaits : careful → ∀ options responder, command ≠ .waitPid options responder)
    (hchanges : ∀ shellPath responder, command = .changeShell shellPath responder → changes responder) :
    Follows careful changes child (handle multiplexer slot command) := by
  cases command with
  | createSession _ | readAllSessions _ | listSessions _ | closeAllSessions _ | removeSession _ _
  | readFromSession _ _ | splitSession _ _ | mergeSessions _ _ =>
    exact follows_keeping hslot fun _ => spared_table _
  | broadcast data _ => exact follows_keeping hslot (spared_broadcast data)
  | sendToSession sessionId data _ => exact follows_keeping hslot (spared_sendToSession sessionId data)
  | close _ | forceKill _ | shutdownPty _ => exact follows_answerTaken hslot
  | write data _ => exact follows_fresh hslot (triple_writeData data)
  | execute _ _ => exact follows_fresh hslot (triple_writeData _)
  | read _ | readAll _ => exact follows_fresh hslot (triple_readData 4096)
  | resize cols rows _ => exact follows_fresh hslot (triple_resize cols rows)
  | closeMasterFd _ => exact follows_fresh hslot triple_closeMasterFd
  | killProcess signal _ => exact follows_fresh hslot (triple_killProcess signal)
  | status _ => exact follows_fresh hslot triple_status
  | setLogLevel level _ => exact follows_fresh hslot (triple_setLogLevel level)
  | setEnv key value _ => exact follows_fresh hslot (triple_setEnv key value)
  | waitPid options responder =>
    have hnever : ¬careful := fun hcareful => hwaits hcareful options responder rfl
    exact follows_answerProcess hslot (triple_waitpid options)
      (fun _ _ _ hown => ⟨hown,fun hcareful => (hnever hcareful).elim⟩)
      fun _ _ _ hown _ => ⟨hown,fun hcareful => (hnever hcareful).elim⟩
  | changeShell shellPath responder =>
    refine follows_answerProcess hslot (triple_changeShell shellPath) ?_ ?_
    · exact fun _ _ _ hrenewed => ⟨hrenewed.1,fun _ => hrenewed.2 rfl⟩
    · intro _ _ _ hrenewed hfails
      exact ⟨hrenewed.1,fun hcareful => (hfails hcareful (hchanges shellPath responder rfl)).elim⟩

theorem follows_handleCommands (multiplexer : Option PtyMultiplexer) {commands : List PtyCommand}
    (hslot : FreshSlot careful child slot)
    (hwaits : careful → ∀ options responder, .waitPid options responder ∉ commands)
    (hchanges : ∀ shellPath responder, .changeShell shellPath responder ∈ commands → changes responder) :
    Follows careful changes child (handleCommands multiplexer slot commands) := by
  induction commands generalizing child slot with
  | nil => exact hslot
  | cons command commands ih =>
    have hcommand : Follows careful changes child (handle multiplexer slot command) :=
      follows_handle multiplexer hslot
        (fun hcareful options responder heq => hwaits hcareful options responder (heq ▸ List.mem_cons_self))
        fun shellPath responder heq => hchanges shellPath responder (heq ▸ List.mem_cons_self)
    cases hshutdown : command.isShutdown with
    | true =>
      rw [handleCommands_cons_shutdown hshutdown]
      exact hcommand
    | false =>
      rw [handleCommands_cons hshutdown]
      refine hcommand.bind fun child' slot' hslot' => ih hslot' ?_ ?_
      · exact fun hcareful options responder h => hwaits hcareful options responder (.tail _ h)
      · exact fun shellPath responder h => hchanges shellPath responder (.tail _ h)

end Handlers

end Child

namespace CommandHandler

/-- The last child after these calls, where the first one has this pid. -/
def childAfter (pid : ℤ) (trace : Trace) : Child := trace.foldl Child.note ⟨pid,false⟩

/-- No command waits for the child, and no change of the shell is answered with a failure. -/
structure SparesChildren (commands : List PtyCommand) (log : Trace) : Prop where
  waits : ∀ options responder, .waitPid options responder ∉ commands
  changes : ∀ shellPath responder, .changeShell shellPath responder ∈ commands →
    ∀ reason, (responder,.failure reason) ∉ replies log

/-- As `fork` is documented, it returns `-1`, zero or a positive pid. -/
def ForksProperly (log : Trace) : Prop :=
  ∀ ret, (⟨.sys .fork,ret⟩ : Prog.Event Call Call.Res) ∈ log → -1 ≤ Ret.value ret

theorem Child.note_positive {child : Child} {event : Prog.Event Call Call.Res} (hchild : 0 < child.pid)
    (h : ForksProperly [event]) : 0 < (child.note event).pid := by
  obtain ⟨call,res⟩ := event
  cases call with
  | sys call =>
    cases call with
    | fork =>
      have hret : -1 ≤ Ret.value res := h res (List.mem_singleton_self _)
      change 0 < (if _ then child else _ : Child).pid
      split
      · exact hchild
      · change 0 < Ret.value res
        omega
    | waitpid pid options =>
      change 0 < (child.record ⟨.waitpid pid options,res⟩).pid
      rwa [Child.record_waitpid_pid]
    | _ => exact hchild
  | _ => exact hchild

theorem childAfter_positive {pid : ℤ} {trace : Trace} (hpid : 0 < pid) (h : ForksProperly trace) :
    0 < (childAfter pid trace).pid := by
  induction trace using List.reverseRecOn with
  | nil => exact hpid
  | append_singleton trace event ih =>
    rw [childAfter,List.foldl_append]
    refine Child.note_positive (ih fun ret hret => h ret (List.mem_append_left _ hret)) fun ret hret => ?_
    exact h ret (List.mem_append_right _ hret)

section

variable {World : Type} {multiplexer : Option PtyMultiplexer} {environment : Environment Call Call.Res World}
  {process : PtyProcess} {world : World} {state : Service.State Call Call.Res Slot PtyCommand PtyResult World}

/-- The answers in the log lead from child to child. -/
theorem answers_note {commands : List PtyCommand} {log : Trace} (child : Child) :
    ∀ event ∈ log, (Child.handlerMonitor (SparesChildren commands log)
      fun responder => ∃ shellPath, .changeShell shellPath responder ∈ commands).answers
      child event.1 event.2 (child.note event) := by
  rintro ⟨call,res⟩ hevent
  cases call with
  | sys call => exact rfl
  | table call => exact rfl
  | send responder result =>
    refine ⟨rfl,?_⟩
    rintro hspares ⟨shellPath,hchange⟩ reason rfl
    refine hspares.changes shellPath responder hchange reason ?_
    exact List.mem_filterMap.mpr ⟨_,hevent,rfl⟩

/-- Whatever the clients call, each signal and each wait is for the child that the handler forked last,
so never for a process group or for all processes; and for a child that a wait has returned already
only after a `WaitPid` command or a change of the shell that failed. -/
theorem signals_child (h : (service multiplexer).Reachable environment (some process) world state)
    (before after : Trace) (call : Sys) (res : call.Res) (pid : ℤ)
    (hlog : state.log = before ++ ⟨.sys call,res⟩::after) (hpid : call.pid? = some pid) :
    pid = (childAfter process.pid before).pid ∧
      (0 < process.pid → ForksProperly state.log → 0 < pid) ∧
      (SparesChildren state.accepted state.log → (childAfter process.pid before).reaped = false) := by
  obtain ⟨rest,hrun⟩ := reachable_handles h
  have hfollows : Child.Follows (SparesChildren state.accepted state.log)
      (fun responder => ∃ shellPath, .changeShell shellPath responder ∈ state.accepted) ⟨process.pid,false⟩
      (handleCommands multiplexer (some process) state.accepted) :=
    Child.follows_handleCommands multiplexer (Child.freshSlot_some ⟨rfl,fun _ => rfl⟩)
      (fun hspares => hspares.waits) fun shellPath responder hchange => ⟨shellPath,hchange⟩
  have hallowed := hfollows.reaches hrun (fun child => answers_note child) hlog pid hpid
  refine ⟨hallowed.1,fun hprocess hforks => ?_,hallowed.2⟩
  rw [hallowed.1]
  exact childAfter_positive hprocess fun ret hret => hforks ret (hlog ▸ List.mem_append_left _ hret)

/-- A client stops the shell `42`. -/
theorem signals_child_stops :
    let ret : Ret := ⟨0,⟨none,""⟩⟩
    let log : Trace := [⟨.sys (.kill 42 19),ret⟩]
    (42 : ℤ) = (childAfter 42 []).pid ∧ (0 < (42 : ℤ) → ForksProperly log → 0 < (42 : ℤ)) ∧
      (SparesChildren [.killProcess 19 0] log → (childAfter 42 []).reaped = false) := by
  intro ret log
  let shell : PtyProcess := ⟨5,42,"sh"⟩
  have hcalled : (service none).Reachable anything (some shell) ()
      ⟨[],.idle (some shell),(),[.called (.killProcess 19 0)],[],[]⟩ :=
    .tail .refl (.call (PtyCommand.killProcess 19 0) (by simp [Service.start]))
  have hsubmitted : (service none).Reachable anything (some shell) ()
      ⟨[.killProcess 19 0],.idle (some shell),(),[.called (.killProcess 19 0)],[.killProcess 19 0],[]⟩ :=
    hcalled.tail (.submit ⟨by simp,by simp,by simp [Service.State.Returned]⟩ (by simp) (by simp [service]))
  have htaken : (service none).Reachable anything (some shell) () ⟨[],
      .busy (.killProcess 19 0) ((service none).serve (some shell) (.killProcess 19 0)),(),
        [.called (.killProcess 19 0)],[.killProcess 19 0],[]⟩ :=
    hsubmitted.tail (.take rfl rfl)
  obtain ⟨next,hserve⟩ : ∃ next, (service none).serve (some shell) (.killProcess 19 0) =
      .call (.sys (.kill 42 19)) next := ⟨_,rfl⟩
  have hkilled : (service none).Reachable anything (some shell) () ⟨[],.busy (.killProcess 19 0) (next ret),(),
      [.called (.killProcess 19 0)],[.killProcess 19 0],log⟩ :=
    htaken.tail (@Service.Step.operate _ _ _ _ _ _ (service none) anything _ (.killProcess 19 0)
      (.sys (.kill 42 19)) next ret () (congrArg _ hserve) trivial)
  exact signals_child hkilled [] [] (.kill 42 19) ret 42 rfl rfl

end

end CommandHandler
end NodeRustPty
