import KssUtil.Foundation.Program
import Mathlib.Data.Int.Notation
import Mathlib.Data.Nat.Notation

/-!
# Changing the user of a process (daemonize.cpp)

`changeUser` looks an account up and hands the process over to it, with `setuid` in front of
`setgid`.
-/

namespace KssUtil.Process

open KssUtil.Foundation

/-- `std::system_error` -/
structure SystemError where
  code : ℤ
  what : String
deriving DecidableEq, Repr

def EPERM : ℤ := 1
def ENOENT : ℤ := 2

/-- The real, effective and saved ids of a process. -/
structure Credentials where
  ruid : ℕ
  euid : ℕ
  suid : ℕ
  rgid : ℕ
  egid : ℕ
  sgid : ℕ
deriving DecidableEq, Repr

/-- With all user ids changed. -/
def Credentials.withUser (c : Credentials) (uid : ℕ) : Credentials :=
  { c with ruid := uid, euid := uid, suid := uid }

/-- With all group ids changed. -/
def Credentials.withGroup (c : Credentials) (gid : ℕ) : Credentials :=
  { c with rgid := gid, egid := gid, sgid := gid }

/-- What is used of a `struct passwd`. -/
structure Passwd where
  uid : ℕ
  gid : ℕ
deriving DecidableEq, Repr

/-- What the system answers.  `getpwnam` gives an error number, and the account if there is
one. -/
structure UserDatabase where
  sysconf : ℤ
  sysconfErrno : ℤ
  getpwnam : String → ℤ × Option Passwd

abbrev Call := EStateM SystemError Credentials

/-- `setuid`, as POSIX has it: the superuser sets all three ids, others change the effective
one to the real or the saved one. -/
def setuid (uid : ℕ) : Call ℤ := do
  let c ← get
  if c.euid = 0 then
    set (c.withUser uid)
    return 0
  else if uid = c.ruid ∨ uid = c.suid then
    set { c with euid := uid }
    return 0
  else return -1

/-- `setgid`; it is the effective user that makes the difference here, too. -/
def setgid (gid : ℕ) : Call ℤ := do
  let c ← get
  if c.euid = 0 then
    set (c.withGroup gid)
    return 0
  else if gid = c.rgid ∨ gid = c.sgid then
    set { c with egid := gid }
    return 0
  else return -1

/-- The first part of `changeUser`, up to the account. -/
def findUser (db : UserDatabase) (user : String) : Call Passwd :=
  if db.sysconf = -1 then throw ⟨db.sysconfErrno, "sysconf"⟩
  else
    let r := db.getpwnam user
    if r.1 ≠ 0 then throw ⟨r.1, "getpwnam_r"⟩
    else
      match r.2 with
      | none => throw ⟨ENOENT, user ++ " not found"⟩
      | some pwd => return pwd

def changeUser (db : UserDatabase) (user : String) : Call PUnit := do
  let pwd ← findUser db user
  if (← setuid pwd.uid) = -1 then throw ⟨EPERM, "setuid"⟩
  if (← setgid pwd.gid) = -1 then throw ⟨EPERM, "setgid"⟩

/-- All ids are those of the account. -/
structure Credentials.Belongs (c : Credentials) (pwd : Passwd) : Prop where
  ruid : c.ruid = pwd.uid
  euid : c.euid = pwd.uid
  suid : c.suid = pwd.uid
  rgid : c.rgid = pwd.gid
  egid : c.egid = pwd.gid
  sgid : c.sgid = pwd.gid

/-- The account is there, and can be read. -/
structure UserDatabase.Finds (db : UserDatabase) (user : String) (pwd : Passwd) : Prop where
  sysconf : db.sysconf ≠ -1
  getpwnam : db.getpwnam user = (0, some pwd)

/-! ## The steps -/

section

variable {db : UserDatabase} {user : String} {pwd : Passwd} {c : Credentials}

theorem findUser_of_finds (h : db.Finds user pwd) : findUser db user = pure pwd := by
  rw [findUser, if_neg h.sysconf, h.getpwnam]
  rfl

/-- A failed lookup leaves the process as it is. -/
theorem runs_findUser (db : UserDatabase) (user : String) (c : Credentials) :
    Runs (findUser db user) c (fun pwd c' => c' = c ∧ db.Finds user pwd) fun _ c' => c' = c := by
  unfold findUser
  split
  · exact rfl
  · rename_i hsysconf
    dsimp only
    split
    · exact rfl
    · rename_i herr
      cases hr : db.getpwnam user with
      | mk err r =>
          rw [hr] at herr
          cases r with
          | none => exact rfl
          | some pwd =>
              obtain rfl : err = 0 := not_not.mp herr
              exact ⟨rfl, hsysconf, hr⟩

theorem setuid_of_root (h : c.euid = 0) (uid : ℕ) :
    setuid uid c = .ok 0 (c.withUser uid) := by
  show (if c.euid = 0 then _ else _ : Call ℤ) c = _
  rw [if_pos h]
  rfl

theorem setgid_of_root (h : c.euid = 0) (gid : ℕ) :
    setgid gid c = .ok 0 (c.withGroup gid) := by
  show (if c.euid = 0 then _ else _ : Call ℤ) c = _
  rw [if_pos h]
  rfl

theorem setgid_of_member {gid : ℕ} (h : c.euid ≠ 0) (hid : gid = c.rgid ∨ gid = c.sgid) :
    setgid gid c = .ok 0 { c with egid := gid } := by
  show (if c.euid = 0 then _ else if gid = c.rgid ∨ gid = c.sgid then _ else _ : Call ℤ) c = _
  rw [if_neg h, if_pos hid]
  rfl

theorem setgid_of_other {gid : ℕ} (h : c.euid ≠ 0) (hid : ¬ (gid = c.rgid ∨ gid = c.sgid)) :
    setgid gid c = .ok (-1) c := by
  show (if c.euid = 0 then _ else if gid = c.rgid ∨ gid = c.sgid then _ else _ : Call ℤ) c = _
  rw [if_neg h, if_neg hid]
  rfl

/-- Once the account is found, a process of the superuser has all its user ids changed, and
`setgid` is left. -/
theorem changeUser_eq (hroot : c.euid = 0) (hfound : db.Finds user pwd) :
    changeUser db user c =
      (do if (← setgid pwd.gid) = -1 then throw ⟨EPERM, "setgid"⟩ : Call PUnit)
        (c.withUser pwd.uid) := by
  unfold changeUser
  rw [findUser_of_finds hfound, pure_bind]
  show EStateM.bind (setuid pwd.uid) _ c = _
  rw [EStateM.bind, setuid_of_root hroot]
  rfl

theorem changeUser_of_granted {c' : Credentials} (hroot : c.euid = 0) (hfound : db.Finds user pwd)
    (hset : setgid pwd.gid (c.withUser pwd.uid) = .ok 0 c') :
    changeUser db user c = .ok ⟨⟩ c' := by
  rw [changeUser_eq hroot hfound]
  show EStateM.bind (setgid pwd.gid) _ _ = _
  rw [EStateM.bind, hset]
  rfl

theorem changeUser_of_denied {c' : Credentials} (hroot : c.euid = 0) (hfound : db.Finds user pwd)
    (hset : setgid pwd.gid (c.withUser pwd.uid) = .ok (-1) c') :
    changeUser db user c = .error ⟨EPERM, "setgid"⟩ c' := by
  rw [changeUser_eq hroot hfound]
  show EStateM.bind (setgid pwd.gid) _ _ = _
  rw [EStateM.bind, hset]
  rfl

/-- A lookup that fails has no effect. -/
theorem changeUser_not_found (h : ∀ pwd, ¬ db.Finds user pwd) :
    Runs (changeUser db user) c (fun _ _ => False) fun _ c' => c' = c := by
  refine Runs.bind (runs_findUser db user c) ?_
  rintro pwd c' ⟨_, hfound⟩
  exact absurd hfound (h pwd)

end

/-! ## What is left behind -/

/-- Dropping the privileges is complete, or it has no effect; and for an account other than
the one of the superuser it is complete. -/
structure DropsPrivileges (db : UserDatabase) (user : String) (pwd : Passwd) (c : Credentials) :
    Prop where
  outcome : Runs (changeUser db user) c (fun _ c' => c'.Belongs pwd) fun _ c' => c' = c
  returns : pwd.uid ≠ 0 → Returns (changeUser db user) c fun _ _ => True

/-- **Dropping privileges.**  When the user has been changed, `setgid` is called without the
privileges for it: it is complete only if the group is that of the process already. -/
theorem dropsPrivileges_iff {db : UserDatabase} {user : String} {pwd : Passwd} {c : Credentials}
    (hroot : c.euid = 0) (hfound : db.Finds user pwd) :
    DropsPrivileges db user pwd c ↔
      pwd.uid = 0 ∨ c.rgid = pwd.gid ∧ c.sgid = pwd.gid := by
  by_cases huid : pwd.uid = 0
  · have hrun := changeUser_of_granted hroot hfound (setgid_of_root huid pwd.gid)
    refine iff_of_true ⟨?_, fun h => absurd huid h⟩ (Or.inl huid)
    rw [Runs, hrun]
    exact ⟨rfl, rfl, rfl, rfl, rfl, rfl⟩
  · by_cases hid : pwd.gid = c.rgid ∨ pwd.gid = c.sgid
    · have hrun := changeUser_of_granted hroot hfound
        (setgid_of_member (c := c.withUser pwd.uid) huid hid)
      constructor
      · intro h
        have houtcome := h.outcome
        rw [Runs, hrun] at houtcome
        exact Or.inr ⟨houtcome.rgid, houtcome.sgid⟩
      · intro h
        obtain ⟨hrgid, hsgid⟩ := h.resolve_left huid
        refine ⟨?_, fun _ => ?_⟩
        · rw [Runs, hrun]
          exact ⟨rfl, rfl, rfl, hrgid, rfl, hsgid⟩
        · rw [Returns, Runs, hrun]
          exact trivial
    · have hrun := changeUser_of_denied hroot hfound
        (setgid_of_other (c := c.withUser pwd.uid) huid hid)
      refine iff_of_false ?_ ?_
      · intro h
        have hreturns := h.returns huid
        rw [Returns, Runs, hrun] at hreturns
        exact hreturns
      · rintro (h | ⟨h, _⟩)
        · exact huid h
        · exact hid (Or.inl h.symm)

/-- One account, with the number that is common for `nobody`. -/
def nobodyDatabase : UserDatabase := ⟨1024, 0, fun _ => (0, some ⟨65534, 65534⟩)⟩

theorem dropsPrivileges_in_group :
    DropsPrivileges nobodyDatabase "nobody" ⟨65534, 65534⟩ ⟨0, 0, 0, 65534, 65534, 65534⟩ :=
  (dropsPrivileges_iff rfl ⟨by decide, rfl⟩).mpr (Or.inr ⟨rfl, rfl⟩)

/-- The superuser's own process ends up with the user changed and the group not. -/
theorem changeUser_half_way :
    changeUser nobodyDatabase "nobody" ⟨0, 0, 0, 0, 0, 0⟩ =
        .error ⟨EPERM, "setgid"⟩ ⟨65534, 65534, 65534, 0, 0, 0⟩ ∧
      ¬ DropsPrivileges nobodyDatabase "nobody" ⟨65534, 65534⟩ ⟨0, 0, 0, 0, 0, 0⟩ := by
  refine ⟨rfl, fun h => ?_⟩
  exact h.returns (by decide)

end KssUtil.Process
