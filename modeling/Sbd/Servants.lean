import Sbd.Basic

/-!
# The servant list

`servants_leader` heads a singly linked list of `struct servants_list_item`. The model keeps the
list as a Lean list and every walk over it as structural recursion, so that a record is found
and rewritten exactly where the C loop stops.

The lookups write through the pointer they return: `cleanup_servant_by_pid` and
`restart_servant_by_pid` set `s->pid` on the record `lookup_servant_by_pid` found. `setPid`
is that write.

`lookup_servant_by_dev` compares names with `strncasecmp` bounded by the record's own length,
and returns when the comparison is *nonzero*. `lookupServantByDev_eq_find` says what that
computes: the first record whose name is not a case-insensitive prefix of the name asked for.
-/

namespace Sbd

/-- The nonzero pids the records hold, in list order. -/
def livePids : List Servant → List Nat
  | [] => []
  | s :: ss => if s.pid = 0 then livePids ss else s.pid :: livePids ss

/-- `lookup_servant_by_pid`: the first record holding `pid`. -/
def lookupServantByPid : List Servant → Nat → Option Servant
  | [], _ => none
  | s :: ss, pid => if s.pid = pid then some s else lookupServantByPid ss pid

/-- `s->pid = q` on the record `lookup_servant_by_pid(pid)` returns; no record, no write. -/
def setPid : List Servant → Nat → Nat → List Servant
  | [], _, _ => []
  | s :: ss, pid, q => if s.pid = pid then { s with pid := q } :: ss else s :: setPid ss pid q

/-- `cleanup_servant_by_pid`. -/
def cleanupServantByPid (ss : List Servant) (pid : Nat) : List Servant := setPid ss pid 0

@[simp] theorem livePids_nil : livePids [] = [] := rfl

@[simp] theorem map_devname_setPid (ss : List Servant) (p q : Nat) :
    (setPid ss p q).map Servant.devname = ss.map Servant.devname := by
  induction ss with
  | nil => rfl
  | cons s ss ih => by_cases h : s.pid = p <;> simp [setPid, h, ih]

@[simp] theorem length_setPid (ss : List Servant) (p q : Nat) :
    (setPid ss p q).length = ss.length := by
  simpa only [List.length_map] using congrArg List.length (map_devname_setPid ss p q)

theorem mem_livePids {ss : List Servant} {p : Nat} :
    p ∈ livePids ss ↔ p ≠ 0 ∧ ∃ s ∈ ss, s.pid = p := by
  induction ss with
  | nil => simp
  | cons s ss ih =>
    by_cases h : s.pid = 0
    · simp only [livePids, h, if_true, ih, List.mem_cons, exists_eq_or_imp]
      constructor
      · rintro ⟨hp, hs⟩; exact ⟨hp, .inr hs⟩
      · rintro ⟨hp, hs | hs⟩
        · exact (hp (by omega)).elim
        · exact ⟨hp, hs⟩
    · simp only [livePids, h, if_false, List.mem_cons, ih, exists_eq_or_imp]
      constructor
      · rintro (rfl | ⟨hp, hs⟩)
        · exact ⟨h, .inl rfl⟩
        · exact ⟨hp, .inr hs⟩
      · rintro ⟨hp, rfl | hs⟩
        · exact .inl rfl
        · exact .inr ⟨hp, hs⟩

/-- A record holding a nonzero pid is found by `lookup_servant_by_pid`, and the record found
holds that pid. -/
theorem mem_of_lookupServantByPid {ss : List Servant} {p : Nat} {r : Servant}
    (h : lookupServantByPid ss p = some r) : r ∈ ss := by
  induction ss with
  | nil => cases h
  | cons s ss ih =>
    simp only [lookupServantByPid] at h
    split at h
    · cases h
      exact List.mem_cons_self _ _
    · exact List.mem_cons_of_mem _ (ih h)

theorem lookupServantByPid_of_mem {ss : List Servant} {p : Nat} (h : p ∈ livePids ss) :
    ∃ s ∈ ss, lookupServantByPid ss p = some s ∧ s.pid = p := by
  induction ss with
  | nil => simp at h
  | cons s ss ih =>
    by_cases hs : s.pid = p
    · exact ⟨s, List.mem_cons_self _ _, by simp [lookupServantByPid, hs], hs⟩
    · have h' : p ∈ livePids ss := by
        by_cases h0 : s.pid = 0 <;> simp_all [livePids, eq_comm]
      obtain ⟨r, hr, hl, hp⟩ := ih h'
      exact ⟨r, List.mem_cons_of_mem _ hr, by simp [lookupServantByPid, hs, hl], hp⟩

/-- Rewriting the pid of the record holding `p ≠ 0` trades `p` for `q` among the live pids. -/
theorem livePids_setPid {ss : List Servant} {p : Nat} (q : Nat) (hp : p ≠ 0)
    (h : p ∈ livePids ss) :
    (livePids (setPid ss p q)).Perm (livePids [⟨"", q⟩] ++ (livePids ss).erase p) := by
  induction ss with
  | nil => simp at h
  | cons s ss ih =>
    by_cases hs : s.pid = p
    · subst hs
      by_cases hq : q = 0 <;> simp [setPid, livePids, hp, hq]
    · rw [show setPid (s :: ss) p q = s :: setPid ss p q by simp [setPid, hs]]
      by_cases h0 : s.pid = 0
      · have h' : p ∈ livePids ss := by simpa [livePids, h0] using h
        simpa [livePids, h0] using ih h'
      · have h' : p ∈ livePids ss := by
          simpa [livePids, h0, Ne.symm hs] using h
        simp only [livePids, h0, if_false, List.erase_cons, beq_iff_eq, hs]
        exact ((ih h').cons _).trans List.perm_middle.symm

/-! ## Looking a record up by device name -/

/-- `strncasecmp(s1, s2, n)` as glibc computes it: at most `n` characters, each lowered by the C
locale's `tolower`, the end of a string read as its terminating `'\x00'`. -/
def strncasecmp : List Char → List Char → Nat → Int
  | _, _, 0 => 0
  | s1, s2, n + 1 =>
    let c1 := s1.headD '\x00'
    let r : Int := c1.toLower.toNat - (s2.headD '\x00').toLower.toNat
    if r ≠ 0 ∨ c1 = '\x00' then r else strncasecmp s1.tail s2.tail n

/-- `lookup_servant_by_dev`: the first record for which `strncasecmp` over the record's name is
nonzero. -/
def lookupServantByDev : List Servant → String → Option Servant
  | [], _ => none
  | s :: ss, devname =>
    if strncasecmp s.devname.toList devname.toList s.devname.length ≠ 0 then some s
    else lookupServantByDev ss devname

theorem toLower_eq_nul {c : Char} : c.toLower = '\x00' ↔ c = '\x00' := by
  unfold Char.toLower
  dsimp only
  split
  · next hc =>
    constructor
    · intro h
      have h' := congrArg Char.toNat h
      rw [Char.ofNat, dif_pos (by unfold Nat.isValidChar; omega)] at h'
      change c.toNat + 32 = 0 at h'
      omega
    · rintro rfl
      simp at hc
  · exact Iff.rfl

/-- Bounded by the length of its first argument, `strncasecmp` is zero exactly when that
argument is a case-insensitive prefix of the second. -/
theorem strncasecmp_length_eq_zero_iff {a : List Char} (b : List Char) (ha : '\x00' ∉ a) :
    strncasecmp a b a.length = 0 ↔ a.map Char.toLower <+: b.map Char.toLower := by
  induction a generalizing b with
  | nil => simp [strncasecmp]
  | cons c a ih =>
    have hc : c.toLower ≠ '\x00' := fun h => ha (toLower_eq_nul.mp h ▸ List.mem_cons_self _ _)
    have hc' : (c.toLower.toNat : Int) ≠ 0 := fun h =>
      hc (by rw [← Char.ofNat_toNat c.toLower, show c.toLower.toNat = 0 by omega])
    cases b with
    | nil =>
      have : ('\x00' : Char).toLower.toNat = 0 := rfl
      simp [strncasecmp, this, hc']
    | cons d b =>
      have hne : c ≠ '\x00' := fun h => ha (h ▸ List.mem_cons_self _ _)
      by_cases hcd : c.toLower = d.toLower
      · simp [strncasecmp, hcd, hne, ih b (fun h => ha (List.mem_cons_of_mem _ h))]
      · have hr : (c.toLower.toNat : Int) - d.toLower.toNat ≠ 0 := fun h =>
          hcd (by rw [← Char.ofNat_toNat c.toLower, ← Char.ofNat_toNat d.toLower]; congr 1; omega)
        simp [strncasecmp, hcd, hr]

/-- What `lookup_servant_by_dev` computes: the first record whose name is *not* a
case-insensitive prefix of `devname`. -/
theorem lookupServantByDev_eq_find (ss : List Servant) (devname : String)
    (h : ∀ s ∈ ss, '\x00' ∉ s.devname.toList) :
    lookupServantByDev ss devname = ss.find? fun s =>
      !(s.devname.toList.map Char.toLower).isPrefixOf (devname.toList.map Char.toLower) := by
  induction ss with
  | nil => rfl
  | cons s ss ih =>
    have hs : strncasecmp s.devname.toList devname.toList s.devname.length = 0 ↔ _ :=
      (strncasecmp_length_eq_zero_iff devname.toList (h s (List.mem_cons_self _ _))).trans
        List.isPrefixOf_iff_prefix.symm
    by_cases hp : (s.devname.toList.map Char.toLower).isPrefixOf (devname.toList.map Char.toLower)
    · rw [lookupServantByDev, if_neg (not_not.mpr (hs.mpr hp)),
        List.find?_cons_of_neg _ (by rw [hp]; decide),
        ih (fun r hr => h r (List.mem_cons_of_mem _ hr))]
    · rw [lookupServantByDev, if_pos (fun e => hp (hs.mp e)),
        List.find?_cons_of_pos _ (by rw [Bool.eq_false_iff.mpr hp]; rfl)]

theorem lookupServantByDev_returns_on_mismatch :
    lookupServantByDev [⟨"/dev/sda", 0⟩] "/dev/sda" = none ∧
      lookupServantByDev [⟨"/dev/sda", 0⟩] "/dev/sdb" = some ⟨"/dev/sda", 0⟩ := by
  decide

end Sbd
