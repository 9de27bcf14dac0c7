import OsHw.Fairness

/-! The paths of `net/socket.c` that run the fairness hooks: `__sock_create` registers a socket for the
calling thread, `__sock_release` unregisters it for whichever thread releases it, and only when the socket
has a file by then, the send and receive paths ask for a decision first. What the rest of the kernel
answers (security hooks, allocators, protocol code, user memory) comes with the call as one record for each
system call. A call returns the manager it leaves behind and what it returns to its caller. -/

namespace OsHw.Net

abbrev Errno := Nat

def ebadf : Errno := 9
def eagain : Errno := 11
def einval : Errno := 22
def enfile : Errno := 23
def enotsock : Errno := 88
def eafnosupport : Errno := 97
def econnaborted : Errno := 103

def nproto : Int32 := 46
def sockMax : Int32 := 11
def pfInet : Int32 := 2
def pfPacket : Int32 := 17
def sockPacket : Int32 := 10
def sockTypeMask : Int32 := 0xf
def sockCloexec : Int32 := 0o2000000
def sockNonblock : Int32 := 0o4000

/-- What `__sock_create` meets on its way. -/
structure CreateEnv where
  securitySocketCreate : Int32 → Int32 → Int32 → Option Errno := fun _ _ _ => none
  sockAlloc : Bool := true
  statsKmalloc : Bool := true
  /-- The family is registered once `request_module` has returned. -/
  netFamilies : Int32 → Bool := fun _ => true
  tryModuleGetFamily : Bool := true
  create : Int32 → Int32 → Option Errno := fun _ _ => none
  tryModuleGetOps : Bool := true
  securitySocketPostCreate : Int32 → Int32 → Int32 → Option Errno := fun _ _ _ => none

/-- What `__sys_socket` meets. -/
structure SocketEnv where
  create : CreateEnv := {}
  unusedFd : Except Errno Nat := .ok 3
  allocFile : Option Errno := none

/-- What `__sys_socketpair` meets. -/
structure PairEnv where
  unusedFd1 : Except Errno Nat := .ok 3
  unusedFd2 : Except Errno Nat := .ok 4
  putUser1 : Option Errno := none
  putUser2 : Option Errno := none
  create1 : CreateEnv := {}
  create2 : CreateEnv := {}
  securitySocketSocketpair : Option Errno := none
  socketpair : Option Errno := none
  allocFile1 : Option Errno := none
  allocFile2 : Option Errno := none

/-- What `__sys_accept4` meets. -/
structure AcceptEnv where
  unusedFd : Except Errno Nat := .ok 3
  sockFromFile : Bool := true
  sockAlloc : Bool := true
  allocFile : Option Errno := none
  securitySocketAccept : Option Errno := none
  accept : Option Errno := none
  upeerSockaddr : Bool := false
  getname : Bool := true
  moveAddrToUser : Option Errno := none

/-- What `__sock_sendmsg` meets: the bytes of the message, what the protocol returns and whether the entry
of the thread can be allocated. -/
structure SendEnv where
  securitySocketSendmsg : Option Errno := none
  bytes : Nat
  sendmsg : Except Errno Nat
  statsKmalloc : Bool := true

/-- What `sock_recvmsg` meets. -/
structure RecvEnv where
  checkKmalloc : Bool := true
  jiffies : UInt64 := 0
  securitySocketRecvmsg : Option Errno := none
  recvmsg : Except Errno Nat
  statsKmalloc : Bool := true

/-- The family that `__sock_create` works with. -/
def createFamily (family type : Int32) : Int32 :=
  if family = pfInet ∧ type = sockPacket then pfPacket else family

/-- Bits that neither the type nor a flag of `socket`, `socketpair` or `accept4` may have. -/
def badFlags (flags : Int32) : Bool := flags &&& ~~~(sockCloexec ||| sockNonblock) ≠ 0

namespace SocketFairnessManager

variable (m : SocketFairnessManager) (t : Tid)

/-- `__sock_release` called by a thread on a socket with or without a file. -/
def sockRelease (file : Bool) : SocketFairnessManager :=
  if file then m.unregisterSocketForThread t else m

/-- `__sock_create`. Every exit after the registration releases a socket that has no file yet. -/
def sockCreate (env : CreateEnv) (family type protocol : Int32) : SocketFairnessManager × Except Errno Unit :=
  if family < 0 ∨ nproto ≤ family then (m, .error eafnosupport)
  else if type < 0 ∨ sockMax ≤ type then (m, .error einval)
  else
    let family := createFamily family type
    match env.securitySocketCreate family type protocol with
    | some err => (m, .error err)
    | none =>
        if !env.sockAlloc then (m, .error enfile)
        else
          let m := m.registerSocketForThread t env.statsKmalloc
          if !env.netFamilies family then (m.sockRelease t false, .error eafnosupport)
          else if !env.tryModuleGetFamily then (m.sockRelease t false, .error eafnosupport)
          else
            match env.create family protocol with
            | some err => (m.sockRelease t false, .error err)
            | none =>
                if !env.tryModuleGetOps then (m.sockRelease t false, .error eafnosupport)
                else
                  match env.securitySocketPostCreate family type protocol with
                  | some err => (m.sockRelease t false, .error err)
                  | none => (m, .ok ())

/-- `sock_alloc_file`, with the error of `alloc_file_pseudo`. -/
def sockAllocFile (allocFile : Option Errno) : SocketFairnessManager × Except Errno Unit :=
  match allocFile with
  | some err => (m.sockRelease t false, .error err)
  | none => (m, .ok ())

def sockMapFd (unusedFd : Except Errno Nat) (allocFile : Option Errno) :
    SocketFairnessManager × Except Errno Nat :=
  match unusedFd with
  | .error err => (m.sockRelease t false, .error err)
  | .ok fd =>
      match m.sockAllocFile t allocFile with
      | (m, .ok _) => (m, .ok fd)
      | (m, .error err) => (m, .error err)

/-- `__sys_socket`. -/
def sysSocket (env : SocketEnv) (family type protocol : Int32) : SocketFairnessManager × Except Errno Nat :=
  if badFlags (type &&& ~~~sockTypeMask) then (m, .error einval)
  else
    match m.sockCreate t env.create family (type &&& sockTypeMask) protocol with
    | (m, .error err) => (m, .error err)
    | (m, .ok _) => m.sockMapFd t env.unusedFd env.allocFile

/-- `__sys_socketpair`. When the second file cannot be allocated the first one is dropped with `fput`, which
releases its socket with the file attached. -/
def sysSocketpair (env : PairEnv) (family type protocol : Int32) : SocketFairnessManager × Except Errno Nat :=
  if badFlags (type &&& ~~~sockTypeMask) then (m, .error einval)
  else
    match env.unusedFd1, env.unusedFd2 with
    | .error err, _ => (m, .error err)
    | .ok _, .error err => (m, .error err)
    | .ok _, .ok _ =>
        match env.putUser1, env.putUser2 with
        | some err, _ => (m, .error err)
        | none, some err => (m, .error err)
        | none, none =>
            match m.sockCreate t env.create1 family (type &&& sockTypeMask) protocol with
            | (m, .error err) => (m, .error err)
            | (m, .ok _) =>
                match m.sockCreate t env.create2 family (type &&& sockTypeMask) protocol with
                | (m, .error err) => (m.sockRelease t false, .error err)
                | (m, .ok _) =>
                    match env.securitySocketSocketpair, env.socketpair with
                    | some err, _ => ((m.sockRelease t false).sockRelease t false, .error err)
                    | none, some err => ((m.sockRelease t false).sockRelease t false, .error err)
                    | none, none =>
                        match m.sockAllocFile t env.allocFile1 with
                        | (m, .error err) => (m.sockRelease t false, .error err)
                        | (m, .ok _) =>
                            match m.sockAllocFile t env.allocFile2 with
                            | (m, .error err) => (m.sockRelease t true, .error err)
                            | (m, .ok _) => (m, .ok 0)

/-- `do_accept`. The new socket gets its file before anything can be refused, and an error after that drops
the file with `fput`. -/
def doAccept (env : AcceptEnv) : SocketFairnessManager × Except Errno Unit :=
  if !env.sockFromFile then (m, .error enotsock)
  else if !env.sockAlloc then (m, .error enfile)
  else
    match m.sockAllocFile t env.allocFile with
    | (m, .error err) => (m, .error err)
    | (m, .ok _) =>
        match env.securitySocketAccept, env.accept with
        | some err, _ => (m.sockRelease t true, .error err)
        | none, some err => (m.sockRelease t true, .error err)
        | none, none =>
            if env.upeerSockaddr then
              if !env.getname then (m.sockRelease t true, .error econnaborted)
              else
                match env.moveAddrToUser with
                | some err => (m.sockRelease t true, .error err)
                | none => (m, .ok ())
            else (m, .ok ())

/-- `__sys_accept4_file`. -/
def sysAccept4 (env : AcceptEnv) (flags : Int32) : SocketFairnessManager × Except Errno Nat :=
  if badFlags flags then (m, .error einval)
  else
    match env.unusedFd with
    | .error err => (m, .error err)
    | .ok newfd =>
        match m.doAccept t env with
        | (m, .error err) => (m, .error err)
        | (m, .ok _) => (m, .ok newfd)

/-- `__sock_sendmsg`, with its decision. -/
def sockSendmsg (env : SendEnv) : SocketFairnessManager × Bool × Except Errno Nat :=
  let (m, throttled) := m.shouldThrottleTransmission t
  match env.securitySocketSendmsg, env.sendmsg with
  | some err, _ => (m, throttled, .error err)
  | none, .error err => (m, throttled, .error err)
  | none, .ok ret =>
      (if 0 < env.bytes then m.updateSocketTraffic t env.bytes 0 env.statsKmalloc else m, throttled, .ok ret)

/-- `sock_recvmsg`, with its decision. -/
def sockRecvmsg (env : RecvEnv) : SocketFairnessManager × Bool × Except Errno Nat :=
  let (m, allowed) := m.checkSocketAllocationAllowed t env.checkKmalloc env.jiffies
  if !allowed then (m, allowed, .error eagain)
  else
    match env.securitySocketRecvmsg, env.recvmsg with
    | some err, _ => (m, allowed, .error err)
    | none, .error err => (m, allowed, .error err)
    | none, .ok ret =>
        (if 0 < ret then m.updateSocketTraffic t 0 ret env.statsKmalloc else m, allowed, .ok ret)

end SocketFairnessManager

/-- `__sock_create` gets as far as the registration. -/
def CreateEnv.Registers (env : CreateEnv) (family type protocol : Int32) : Prop :=
  (0 ≤ family ∧ family < nproto) ∧ (0 ≤ type ∧ type < sockMax) ∧
    env.securitySocketCreate (createFamily family type) type protocol = none ∧ env.sockAlloc = true

/-- Nothing fails in `__sock_create` after the registration. -/
def CreateEnv.Completes (env : CreateEnv) (family type protocol : Int32) : Prop :=
  env.netFamilies (createFamily family type) = true ∧ env.tryModuleGetFamily = true ∧
    env.create (createFamily family type) protocol = none ∧ env.tryModuleGetOps = true ∧
    env.securitySocketPostCreate (createFamily family type) type protocol = none

/-- `socket` gets as far as the registration. -/
def SocketEnv.Registers (env : SocketEnv) (family type protocol : Int32) : Prop :=
  badFlags (type &&& ~~~sockTypeMask) = false ∧ env.create.Registers family (type &&& sockTypeMask) protocol

/-- Nothing fails in `socket`. -/
def SocketEnv.Succeeds (env : SocketEnv) (family type protocol : Int32) : Prop :=
  env.Registers family type protocol ∧ env.create.Completes family (type &&& sockTypeMask) protocol ∧
    env.unusedFd.isOk = true ∧ env.allocFile = none

/-- `socketpair` gets as far as the registration of its first socket. -/
def PairEnv.RegistersFirst (env : PairEnv) (family type protocol : Int32) : Prop :=
  badFlags (type &&& ~~~sockTypeMask) = false ∧ env.unusedFd1.isOk = true ∧ env.unusedFd2.isOk = true ∧
    env.putUser1 = none ∧ env.putUser2 = none ∧ env.create1.Registers family (type &&& sockTypeMask) protocol

/-- After its first registration `socketpair` gets as far as the second one. -/
def PairEnv.RegistersSecond (env : PairEnv) (family type protocol : Int32) : Prop :=
  env.create1.Completes family (type &&& sockTypeMask) protocol ∧
    env.create2.Registers family (type &&& sockTypeMask) protocol

/-- After its second registration `socketpair` has the first file and fails to get the second. -/
def PairEnv.LosesSecondFile (env : PairEnv) (family type protocol : Int32) : Prop :=
  env.create2.Completes family (type &&& sockTypeMask) protocol ∧ env.securitySocketSocketpair = none ∧
    env.socketpair = none ∧ env.allocFile1 = none ∧ env.allocFile2 ≠ none

/-- Nothing fails in `socketpair`. -/
def PairEnv.Succeeds (env : PairEnv) (family type protocol : Int32) : Prop :=
  env.RegistersFirst family type protocol ∧ env.RegistersSecond family type protocol ∧
    env.create2.Completes family (type &&& sockTypeMask) protocol ∧ env.securitySocketSocketpair = none ∧
    env.socketpair = none ∧ env.allocFile1 = none ∧ env.allocFile2 = none

/-- `accept` attaches a file to the new socket and fails after that. -/
def AcceptEnv.FailsWithFile (env : AcceptEnv) (flags : Int32) : Prop :=
  badFlags flags = false ∧ env.unusedFd.isOk = true ∧ env.sockFromFile = true ∧ env.sockAlloc = true ∧
    env.allocFile = none ∧
    (env.securitySocketAccept ≠ none ∨ env.accept ≠ none ∨
      env.upeerSockaddr = true ∧ (env.getname = false ∨ env.moveAddrToUser ≠ none))

/-- Nothing fails in `accept`. -/
def AcceptEnv.Succeeds (env : AcceptEnv) (flags : Int32) : Prop :=
  badFlags flags = false ∧ env.unusedFd.isOk = true ∧ env.sockFromFile = true ∧ env.sockAlloc = true ∧
    env.allocFile = none ∧ env.securitySocketAccept = none ∧ env.accept = none ∧
    (env.upeerSockaddr = true → env.getname = true ∧ env.moveAddrToUser = none)

section Decidability

variable (family type protocol flags : Int32)

instance (env : CreateEnv) : Decidable (env.Registers family type protocol) :=
  inferInstanceAs (Decidable (_ ∧ _ ∧ _ ∧ _))

instance (env : CreateEnv) : Decidable (env.Completes family type protocol) :=
  inferInstanceAs (Decidable (_ ∧ _ ∧ _ ∧ _ ∧ _))

instance (env : SocketEnv) : Decidable (env.Registers family type protocol) :=
  inferInstanceAs (Decidable (_ ∧ _))

instance (env : SocketEnv) : Decidable (env.Succeeds family type protocol) :=
  inferInstanceAs (Decidable (_ ∧ _ ∧ _ ∧ _))

instance (env : PairEnv) : Decidable (env.RegistersFirst family type protocol) :=
  inferInstanceAs (Decidable (_ ∧ _ ∧ _ ∧ _ ∧ _ ∧ _))

instance (env : PairEnv) : Decidable (env.RegistersSecond family type protocol) :=
  inferInstanceAs (Decidable (_ ∧ _))

instance (env : PairEnv) : Decidable (env.LosesSecondFile family type protocol) :=
  inferInstanceAs (Decidable (_ ∧ _ ∧ _ ∧ _ ∧ _))

instance (env : PairEnv) : Decidable (env.Succeeds family type protocol) :=
  inferInstanceAs (Decidable (_ ∧ _ ∧ _ ∧ _ ∧ _ ∧ _ ∧ _))

instance (env : AcceptEnv) : Decidable (env.FailsWithFile flags) :=
  inferInstanceAs (Decidable (_ ∧ _ ∧ _ ∧ _ ∧ _ ∧ _))

instance (env : AcceptEnv) : Decidable (env.Succeeds flags) :=
  inferInstanceAs (Decidable (_ ∧ _ ∧ _ ∧ _ ∧ _ ∧ _ ∧ _ ∧ _))

end Decidability

@[simp] theorem isOk_ok {ε α : Type} (a : α) : (Except.ok a : Except ε α).isOk = true := rfl

@[simp] theorem isOk_error {ε α : Type} (e : ε) : (Except.error e : Except ε α).isOk = false := rfl

theorem PairEnv.Succeeds.not_losesSecondFile {env : PairEnv} {family type protocol : Int32}
    (h : env.Succeeds family type protocol) : ¬env.LosesSecondFile family type protocol :=
  fun hl => hl.2.2.2.2 h.2.2.2.2.2.2

theorem AcceptEnv.Succeeds.not_failsWithFile {env : AcceptEnv} {flags : Int32} (h : env.Succeeds flags) :
    ¬env.FailsWithFile flags := by
  rintro ⟨-, -, -, -, -, hsec | hacc | ⟨hpeer, hname | hmove⟩⟩
  · exact hsec h.2.2.2.2.2.1
  · exact hacc h.2.2.2.2.2.2.1
  · rw [(h.2.2.2.2.2.2.2 hpeer).1] at hname
    cases hname
  · exact hmove (h.2.2.2.2.2.2.2 hpeer).2

namespace SocketFairnessManager

/-- `__sock_create` registers the socket once it has one, and no error exit takes that back. -/
theorem sockCreate_eq (m : SocketFairnessManager) (t : Tid) (env : CreateEnv) (family type protocol : Int32) :
    ∃ r, m.sockCreate t env family type protocol =
        (if env.Registers family type protocol then m.registerSocketForThread t env.statsKmalloc else m, r) ∧
      (r.isOk = true ↔ env.Registers family type protocol ∧ env.Completes family type protocol) := by
  unfold sockCreate
  by_cases hf : family < 0 ∨ nproto ≤ family
  · have hreg : ¬env.Registers family type protocol := by
      rintro ⟨⟨h₁, h₂⟩, -⟩
      exact hf.elim (Int32.not_lt.mpr h₁) (Int32.not_le.mpr h₂)
    exact ⟨_, by rw [if_pos hf, if_neg hreg], by simp [hreg]⟩
  by_cases ht : type < 0 ∨ sockMax ≤ type
  · have hreg : ¬env.Registers family type protocol := by
      rintro ⟨-, ⟨h₁, h₂⟩, -⟩
      exact ht.elim (Int32.not_lt.mpr h₁) (Int32.not_le.mpr h₂)
    exact ⟨_, by rw [if_neg hf, if_pos ht, if_neg hreg], by simp [hreg]⟩
  rw [if_neg hf, if_neg ht]
  cases hsec : env.securitySocketCreate (createFamily family type) type protocol with
  | some err =>
      have hreg : ¬env.Registers family type protocol := by simp [CreateEnv.Registers, hsec]
      exact ⟨.error err, by simp [hreg, hsec], by simp [hreg]⟩
  | none =>
      cases halloc : env.sockAlloc with
      | false =>
          have hreg : ¬env.Registers family type protocol := by simp [CreateEnv.Registers, halloc]
          exact ⟨.error enfile, by simp [hreg, hsec], by simp [hreg]⟩
      | true =>
          have hrange : (0 ≤ family ∧ family < nproto) ∧ (0 ≤ type ∧ type < sockMax) := by
            simpa [not_or] using And.intro hf ht
          have hreg : env.Registers family type protocol := ⟨hrange.1, hrange.2, hsec, halloc⟩
          simp only [hreg, if_true, true_and, hsec]
          -- what is left fails or not, the manager is the same at every exit
          cases h₁ : env.netFamilies (createFamily family type) with
          | false => exact ⟨_, rfl, by simp [CreateEnv.Completes, h₁]⟩
          | true =>
          cases h₂ : env.tryModuleGetFamily with
          | false => exact ⟨_, rfl, by simp [CreateEnv.Completes, h₂]⟩
          | true =>
          cases h₃ : env.create (createFamily family type) protocol with
          | some err => exact ⟨_, rfl, by simp [CreateEnv.Completes, h₃]⟩
          | none =>
          cases h₄ : env.tryModuleGetOps with
          | false => exact ⟨_, rfl, by simp [CreateEnv.Completes, h₄]⟩
          | true =>
          cases h₅ : env.securitySocketPostCreate (createFamily family type) type protocol with
          | some err => exact ⟨_, rfl, by simp [CreateEnv.Completes, h₅]⟩
          | none => exact ⟨_, rfl, by simp [CreateEnv.Completes, h₁, h₂, h₃, h₄, h₅]⟩

/-- The manager after `socket`, whatever becomes of the call after the registration. -/
theorem sysSocket_eq (m : SocketFairnessManager) (t : Tid) (env : SocketEnv) (family type protocol : Int32) :
    ∃ r, m.sysSocket t env family type protocol =
        (if env.Registers family type protocol then m.registerSocketForThread t env.create.statsKmalloc
          else m, r) ∧
      (r.isOk = true ↔ env.Succeeds family type protocol) := by
  unfold sysSocket
  cases hb : badFlags (type &&& ~~~sockTypeMask) with
  | true =>
      exact ⟨.error einval, by simp [SocketEnv.Registers, hb], by simp [SocketEnv.Succeeds, SocketEnv.Registers, hb]⟩
  | false =>
      obtain ⟨r, heq, hok⟩ := sockCreate_eq m t env.create family (type &&& sockTypeMask) protocol
      simp only [SocketEnv.Succeeds, SocketEnv.Registers, hb, true_and, heq]
      rw [← and_assoc, ← hok]
      cases r with
      | error err => exact ⟨_, rfl, by simp⟩
      | ok _ =>
          cases env.unusedFd with
          | error err => exact ⟨_, rfl, by simp⟩
          | ok fd => cases env.allocFile <;> exact ⟨_, rfl, by simp⟩

/-- The manager after `socketpair`: one unit for each registration it gets to, and one back when the second
file is missing. -/
theorem sysSocketpair_eq (m : SocketFairnessManager) (t : Tid) (env : PairEnv) (family type protocol : Int32) :
    ∃ r, m.sysSocketpair t env family type protocol =
        (if env.RegistersFirst family type protocol then
          if env.RegistersSecond family type protocol then
            if env.LosesSecondFile family type protocol then
              ((m.registerSocketForThread t env.create1.statsKmalloc).registerSocketForThread t
                env.create2.statsKmalloc).unregisterSocketForThread t
            else
              (m.registerSocketForThread t env.create1.statsKmalloc).registerSocketForThread t
                env.create2.statsKmalloc
          else m.registerSocketForThread t env.create1.statsKmalloc
        else m, r) ∧
      (r.isOk = true ↔ env.Succeeds family type protocol) := by
  unfold sysSocketpair
  cases hb : badFlags (type &&& ~~~sockTypeMask) with
  | true =>
      exact ⟨.error einval, by simp [PairEnv.RegistersFirst, hb],
        by simp [PairEnv.Succeeds, PairEnv.RegistersFirst, hb]⟩
  | false =>
  cases h₁ : env.unusedFd1 with
  | error err =>
      exact ⟨.error err, by simp [PairEnv.RegistersFirst, h₁], by simp [PairEnv.Succeeds, PairEnv.RegistersFirst, h₁]⟩
  | ok fd1 =>
  cases h₂ : env.unusedFd2 with
  | error err =>
      exact ⟨.error err, by simp [PairEnv.RegistersFirst, h₂], by simp [PairEnv.Succeeds, PairEnv.RegistersFirst, h₂]⟩
  | ok fd2 =>
  cases h₃ : env.putUser1 with
  | some err =>
      exact ⟨.error err, by simp [PairEnv.RegistersFirst, h₃], by simp [PairEnv.Succeeds, PairEnv.RegistersFirst, h₃]⟩
  | none =>
  cases h₄ : env.putUser2 with
  | some err =>
      exact ⟨.error err, by simp [PairEnv.RegistersFirst, h₄], by simp [PairEnv.Succeeds, PairEnv.RegistersFirst, h₄]⟩
  | none =>
  obtain ⟨r₁, heq₁, hok₁⟩ := sockCreate_eq m t env.create1 family (type &&& sockTypeMask) protocol
  have hfirst : env.RegistersFirst family type protocol ↔
      env.create1.Registers family (type &&& sockTypeMask) protocol := by
    simp [PairEnv.RegistersFirst, hb, h₁, h₂, h₃, h₄]
  simp only [heq₁, PairEnv.Succeeds, hfirst, Bool.false_eq_true, if_false]
  cases r₁ with
  | error err =>
      have hsecond (hreg : env.create1.Registers family (type &&& sockTypeMask) protocol) :
          ¬env.RegistersSecond family type protocol := fun h => by
        have := hok₁.mpr ⟨hreg, h.1⟩
        cases this
      refine ⟨.error err, ?_, by simpa using fun hreg h => absurd h (hsecond hreg)⟩
      by_cases hreg : env.create1.Registers family (type &&& sockTypeMask) protocol
      · simp only [if_pos hreg, if_neg (hsecond hreg)]
      · simp only [if_neg hreg]
  | ok _ =>
      obtain ⟨hreg, hcompl⟩ := hok₁.mp rfl
      obtain ⟨r₂, heq₂, hok₂⟩ := sockCreate_eq (m.registerSocketForThread t env.create1.statsKmalloc) t env.create2
        family (type &&& sockTypeMask) protocol
      have hsecond : env.RegistersSecond family type protocol ↔
          env.create2.Registers family (type &&& sockTypeMask) protocol := by
        simp [PairEnv.RegistersSecond, hcompl]
      simp only [hreg, if_true, heq₂, hsecond, true_and]
      rw [← and_assoc, ← hok₂]
      cases r₂ with
      | error err =>
          have hloses (hreg₂ : env.create2.Registers family (type &&& sockTypeMask) protocol) :
              ¬env.LosesSecondFile family type protocol := fun h => by
            have := hok₂.mpr ⟨hreg₂, h.1⟩
            cases this
          refine ⟨.error err, ?_, by simp⟩
          by_cases hreg₂ : env.create2.Registers family (type &&& sockTypeMask) protocol
          · simp only [if_pos hreg₂, if_neg (hloses hreg₂), sockRelease, Bool.false_eq_true, if_false]
          · simp only [if_neg hreg₂, sockRelease, Bool.false_eq_true, if_false]
      | ok _ =>
          obtain ⟨hreg₂, hcompl₂⟩ := hok₂.mp rfl
          have hloses : env.LosesSecondFile family type protocol ↔ env.securitySocketSocketpair = none ∧
              env.socketpair = none ∧ env.allocFile1 = none ∧ env.allocFile2 ≠ none := by
            simp [PairEnv.LosesSecondFile, hcompl₂]
          simp only [hreg₂, if_true, hloses, isOk_ok, true_and]
          cases h₅ : env.securitySocketSocketpair with
          | some err => exact ⟨.error err, by simp [sockRelease], by simp⟩
          | none =>
          cases h₆ : env.socketpair with
          | some err => exact ⟨.error err, by simp [sockRelease], by simp⟩
          | none =>
          cases h₇ : env.allocFile1 with
          | some err => exact ⟨.error err, by simp [sockAllocFile, sockRelease], by simp⟩
          | none =>
          cases h₈ : env.allocFile2 with
          | some err => exact ⟨.error err, by simp [sockAllocFile, sockRelease], by simp⟩
          | none => exact ⟨.ok 0, by simp [sockAllocFile], by simp⟩

/-- The manager after `accept`: no unit is taken, and one is given back when the call fails late. -/
theorem sysAccept4_eq (m : SocketFairnessManager) (t : Tid) (env : AcceptEnv) (flags : Int32) :
    ∃ r, m.sysAccept4 t env flags =
        (if env.FailsWithFile flags then m.unregisterSocketForThread t else m, r) ∧
      (r.isOk = true ↔ env.Succeeds flags) := by
  unfold sysAccept4
  cases hb : badFlags flags with
  | true => exact ⟨.error einval, by simp [AcceptEnv.FailsWithFile, hb], by simp [AcceptEnv.Succeeds, hb]⟩
  | false =>
  cases h₁ : env.unusedFd with
  | error err => exact ⟨.error err, by simp [AcceptEnv.FailsWithFile, h₁], by simp [AcceptEnv.Succeeds, h₁]⟩
  | ok fd =>
  unfold doAccept
  cases h₂ : env.sockFromFile with
  | false => exact ⟨.error enotsock, by simp [AcceptEnv.FailsWithFile, h₂], by simp [AcceptEnv.Succeeds, h₂]⟩
  | true =>
  cases h₃ : env.sockAlloc with
  | false => exact ⟨.error enfile, by simp [AcceptEnv.FailsWithFile, h₃], by simp [AcceptEnv.Succeeds, h₃]⟩
  | true =>
  cases h₄ : env.allocFile with
  | some err =>
      exact ⟨.error err, by simp [sockAllocFile, sockRelease, AcceptEnv.FailsWithFile, h₄],
        by simp [AcceptEnv.Succeeds, h₄]⟩
  | none =>
  -- from here on the new socket has a file
  have hlate : env.FailsWithFile flags ↔ env.securitySocketAccept ≠ none ∨ env.accept ≠ none ∨
      env.upeerSockaddr = true ∧ (env.getname = false ∨ env.moveAddrToUser ≠ none) := by
    simp [AcceptEnv.FailsWithFile, hb, h₁, h₂, h₃, h₄]
  have hsucc : env.Succeeds flags ↔ env.securitySocketAccept = none ∧ env.accept = none ∧
      (env.upeerSockaddr = true → env.getname = true ∧ env.moveAddrToUser = none) := by
    simp [AcceptEnv.Succeeds, hb, h₁, h₂, h₃, h₄]
  simp only [hlate, hsucc, sockAllocFile, sockRelease]
  cases h₅ : env.securitySocketAccept with
  | some err => exact ⟨.error err, by simp, by simp⟩
  | none =>
  cases h₆ : env.accept with
  | some err => exact ⟨.error err, by simp, by simp⟩
  | none =>
  cases h₇ : env.upeerSockaddr with
  | false => exact ⟨.ok fd, by simp, by simp⟩
  | true =>
  cases h₈ : env.getname with
  | false => exact ⟨.error econnaborted, by simp, by simp⟩
  | true =>
  cases h₉ : env.moveAddrToUser with
  | some err => exact ⟨.error err, by simp, by simp⟩
  | none => exact ⟨.ok fd, by simp, by simp⟩

end SocketFairnessManager

end OsHw.Net
