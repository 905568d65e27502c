import Mathlib.Data.List.Induction

/-!
# The routing rule

One fib rule points traffic leaving the AWDL interface at that interface's table.
At `RULE_PRIORITY_EXEMPT` it sits above the VPN kill-switch, at
`RULE_PRIORITY_PLAIN` below it.  The kernel keeps a table of rules; the daemon
talks to it one netlink request at a time and each request may be lost, or its
answer may be.

A rule moves by being swept and added again: `add_rule` deletes at both
priorities, at most eight times each and until a delete fails, and then adds.
`sweepAt_clears` says when the sweep leaves nothing behind.
-/

namespace Tarishd

def rulePriorityExempt : Nat := 13500

def rulePriorityPlain : Nat := 15500

def rulePriorities : List Nat := [rulePriorityExempt, rulePriorityPlain]

/-- A rule of the kernel's table: the interface it matches by name, the table it
points at, where it sits and the one uid it is scoped to. -/
structure Rule where
  oifname : String
  table : Nat
  priority : Nat
  uid : Nat
  deriving DecidableEq, Repr

/-- What becomes of one netlink request. -/
inductive Delivery
  /-- It came to nothing and an error came back: no socket, the send failed, or
  the kernel refused it. -/
  | unsent
  /-- The kernel acted on it, and the answer could not be read. -/
  | unheard
  /-- The kernel acted on it and its verdict came back. -/
  | ack
  /-- The kernel acted on it, and what came back carried no error: taken for
  success. -/
  | noError
  deriving DecidableEq, Repr

/-- What `send_nl_flags` makes of a request that the kernel answers with
`verdict`. -/
def Delivery.ok (d : Delivery) (verdict : Bool) : Bool :=
  match d with
  | .unsent | .unheard => false
  | .ack => verdict
  | .noError => true

def Delivery.reaches : Delivery → Bool
  | .unsent => false
  | .unheard | .ack | .noError => true

/-- Whether there is a rule at a priority. -/
def hasRule (rules : List Rule) (priority : Nat) : Bool :=
  rules.any fun r => decide (r.priority = priority)

/-- `del_rule_at`: the kernel deletes the first rule at the priority, and reports
an error if there is none. -/
def delRuleAt (priority : Nat) (d : Delivery) (rules : List Rule) : Bool × List Rule :=
  (d.ok (hasRule rules priority),
    if d.reaches then rules.eraseP fun r => decide (r.priority = priority) else rules)

/-- Delete at one priority until a delete fails, `rounds` times at most; `net`
gives each request of the call its delivery and `used` counts them.  Returns the
rules, the requests made and the deletes that succeeded. -/
def sweepAt (priority : Nat) (net : Nat → Delivery) :
    Nat → Nat → List Rule → List Rule × Nat × Nat
  | 0, used, rules => (rules, used, 0)
  | rounds + 1, used, rules =>
      match delRuleAt priority (net used) rules with
      | (true, rules) =>
          let (rules, used, removed) := sweepAt priority net rounds (used + 1) rules
          (rules, used, removed + 1)
      | (false, rules) => (rules, used + 1, 0)

/-- The sweep of both priorities that opens `add_rule` and is `remove_rule`. -/
def sweep (net : Nat → Delivery) (rules : List Rule) : List Rule × Nat × Nat :=
  let first := sweepAt rulePriorityExempt net 8 0 rules
  let second := sweepAt rulePriorityPlain net 8 first.2.1 first.1
  (second.1, second.2.1, first.2.2 + second.2.2)

/-- What a call of `add_rule` meets: the interface, its index, the uid to scope
the rule to, and the fate of its requests. -/
structure RuleEnv where
  iface : String
  index : Option Nat
  uid : Option Nat
  net : Nat → Delivery

/-- `add_rule`.  An identical rule is reported as existing, and that is taken for
success. -/
def addRule (env : RuleEnv) (exempt : Bool) (rules : List Rule) : Bool × List Rule :=
  match env.index with
  | none => (false, rules)
  | some index =>
      let (rules, used, _) := sweep env.net rules
      match env.uid with
      | none => (false, rules)
      | some uid =>
          let rule : Rule :=
            { oifname := env.iface
              table := index
              priority := if exempt then rulePriorityExempt else rulePriorityPlain
              uid := uid }
          let d := env.net used
          (d.ok true, if d.reaches ∧ rule ∉ rules then rules ++ [rule] else rules)

/-- `remove_rule`; it reports whether anything was removed. -/
def removeRule (net : Nat → Delivery) (rules : List Rule) : Bool × List Rule :=
  let (rules, _, removed) := sweep net rules
  (decide (removed ≠ 0), rules)

/-! ## What a sweep leaves -/

/-- The rules at a priority, in the kernel's order. -/
def rulesAt (rules : List Rule) (priority : Nat) : List Rule :=
  rules.filter fun r => decide (r.priority = priority)

/-- How many rules sit at a priority. -/
def countAt (rules : List Rule) (priority : Nat) : Nat :=
  rules.countP fun r => decide (r.priority = priority)

theorem countAt_eq_length (rules : List Rule) (priority : Nat) :
    countAt rules priority = (rulesAt rules priority).length :=
  List.countP_eq_length_filter

theorem hasRule_eq_false {rules : List Rule} {priority : Nat} :
    hasRule rules priority = false ↔ countAt rules priority = 0 := by
  simp [hasRule, countAt, List.countP_eq_zero]

theorem hasRule_eq (rules : List Rule) (priority : Nat) :
    hasRule rules priority = !(rulesAt rules priority).isEmpty := by
  induction rules with
  | nil => rfl
  | cons r rules ih =>
      by_cases hr : r.priority = priority
      · simp [hasRule, rulesAt, hr]
      · simpa [hasRule, rulesAt, hr] using ih

/-- A delete takes the first rule at its priority. -/
theorem rulesAt_erase (rules : List Rule) (priority : Nat) :
    rulesAt (rules.eraseP fun r => decide (r.priority = priority)) priority =
      (rulesAt rules priority).tail := by
  induction rules with
  | nil => rfl
  | cons r rules ih =>
      by_cases hr : r.priority = priority
      · simp [rulesAt, hr]
      · simpa [rulesAt, hr] using ih

/-- The other priority keeps its rules. -/
theorem rulesAt_erase_of_ne (rules : List Rule) {priority other : Nat}
    (hne : other ≠ priority) :
    rulesAt (rules.eraseP fun r => decide (r.priority = priority)) other =
      rulesAt rules other := by
  induction rules with
  | nil => rfl
  | cons r rules ih =>
      by_cases hr : r.priority = priority
      · have hother : r.priority ≠ other := fun h => hne (h.symm.trans hr)
        simp [rulesAt, hr, hne.symm]
      · by_cases hother : r.priority = other
        · simpa [rulesAt, hr, hother, hne] using ih
        · simpa [rulesAt, hr, hother] using ih

/-- How many rules a sweep can take, told by the fate of its requests alone: it
goes on while they are answered, and the first that is not may still have taken
one. -/
def reachOf (net : Nat → Delivery) : Nat → Nat → Nat
  | 0, _ => 0
  | rounds + 1, used =>
      match net used with
      | .unsent => 0
      | .unheard => 1
      | .ack | .noError => reachOf net rounds (used + 1) + 1

/-- The request that follows a sweep of `count` rules: the sweep ends after its
last round or with the first delete that comes back as an error. -/
def afterSweep (net : Nat → Delivery) : Nat → Nat → Nat → Nat
  | 0, used, _ => used
  | rounds + 1, used, count =>
      match net used with
      | .unsent | .unheard => used + 1
      | .ack => if count = 0 then used + 1 else afterSweep net rounds (used + 1) (count - 1)
      | .noError => afterSweep net rounds (used + 1) (count - 1)

/-- **What one sweep does.**  It drops the first rules of its priority, as many as
its requests reach. -/
theorem sweepAt_rulesAt (priority : Nat) (net : Nat → Delivery) (rounds used : Nat)
    (rules : List Rule) :
    rulesAt (sweepAt priority net rounds used rules).1 priority =
      (rulesAt rules priority).drop (reachOf net rounds used) := by
  induction rounds generalizing used rules with
  | zero => rfl
  | succ rounds ih =>
      have herase := rulesAt_erase rules priority
      cases hd : net used with
      | unsent => simp [sweepAt, reachOf, delRuleAt, hd, Delivery.ok, Delivery.reaches]
      | unheard =>
          simpa [sweepAt, reachOf, delRuleAt, hd, Delivery.ok, Delivery.reaches] using herase
      | noError =>
          have hrest := ih (used + 1) (rules.eraseP fun r => decide (r.priority = priority))
          rw [herase, List.drop_tail] at hrest
          simpa [sweepAt, reachOf, delRuleAt, hd, Delivery.ok, Delivery.reaches] using hrest
      | ack =>
          have hrest := ih (used + 1) (rules.eraseP fun r => decide (r.priority = priority))
          rw [herase, List.drop_tail] at hrest
          cases hrules : rulesAt rules priority with
          | nil =>
              rw [hrules] at herase
              simpa [sweepAt, reachOf, delRuleAt, hd, Delivery.ok, Delivery.reaches,
                hasRule_eq, hrules] using herase
          | cons r rest =>
              rw [hrules] at hrest
              simpa [sweepAt, reachOf, delRuleAt, hd, Delivery.ok, Delivery.reaches,
                hasRule_eq, hrules] using hrest

/-- It leaves the other priority alone. -/
theorem sweepAt_rulesAt_of_ne (net : Nat → Delivery) (rounds used : Nat)
    (rules : List Rule) {priority other : Nat} (hne : other ≠ priority) :
    rulesAt (sweepAt priority net rounds used rules).1 other = rulesAt rules other := by
  induction rounds generalizing used rules with
  | zero => rfl
  | succ rounds ih =>
      have hdel : rulesAt (delRuleAt priority (net used) rules).2 other =
          rulesAt rules other := by
        unfold delRuleAt
        split
        · exact rulesAt_erase_of_ne rules hne
        · rfl
      unfold sweepAt
      split
      next rest hrest =>
        rw [hrest] at hdel
        exact (ih (used + 1) rest).trans hdel
      next rest hrest =>
        rw [hrest] at hdel
        exact hdel

theorem sweepAt_used (priority : Nat) (net : Nat → Delivery) (rounds used : Nat)
    (rules : List Rule) :
    (sweepAt priority net rounds used rules).2.1 =
      afterSweep net rounds used (rulesAt rules priority).length := by
  induction rounds generalizing used rules with
  | zero => rfl
  | succ rounds ih =>
      have hrest := ih (used + 1) (rules.eraseP fun r => decide (r.priority = priority))
      rw [rulesAt_erase, List.length_tail] at hrest
      cases hd : net used with
      | unsent => simp [sweepAt, afterSweep, delRuleAt, hd, Delivery.ok]
      | unheard => simp [sweepAt, afterSweep, delRuleAt, hd, Delivery.ok]
      | noError =>
          simpa [sweepAt, afterSweep, delRuleAt, hd, Delivery.ok, Delivery.reaches] using hrest
      | ack =>
          cases hrules : rulesAt rules priority with
          | nil =>
              simp [sweepAt, afterSweep, delRuleAt, hd, Delivery.ok, hasRule_eq, hrules]
          | cons r rest =>
              rw [hrules] at hrest
              simpa [sweepAt, afterSweep, delRuleAt, hd, Delivery.ok, Delivery.reaches,
                hasRule_eq, hrules] using hrest

/-- What the sweep of one priority needs in order to be complete: no more rules
than rounds, every delete that has a rule to take reaches the kernel, and all but
the last of them are answered. -/
structure Swept (count rounds : Nat) (net : Nat → Delivery) (used : Nat) : Prop where
  enough : count ≤ rounds
  reach : ∀ i, i < count → net (used + i) ≠ .unsent
  heard : ∀ i, i + 1 < count → net (used + i) ≠ .unheard

theorem Swept.le_reachOf {count rounds used : Nat} {net : Nat → Delivery}
    (swept : Swept count rounds net used) : count ≤ reachOf net rounds used := by
  induction rounds generalizing count used with
  | zero => exact swept.enough
  | succ rounds ih =>
      cases count with
      | zero => exact Nat.zero_le _
      | succ count =>
          have hreach := swept.reach 0 (by omega)
          rw [Nat.add_zero] at hreach
          have hnext : Swept count rounds net (used + 1) := by
            refine ⟨Nat.le_of_succ_le_succ swept.enough, ?_, ?_⟩
            · intro i hi
              have hne := swept.reach (i + 1) (by omega)
              rwa [show used + (i + 1) = used + 1 + i by omega] at hne
            · intro i hi
              have hne := swept.heard (i + 1) (by omega)
              rwa [show used + (i + 1) = used + 1 + i by omega] at hne
          have hrest := ih hnext
          cases hd : net used with
          | unsent => exact absurd hd hreach
          | unheard =>
              -- an unanswered delete stops the sweep: it must have been the last one
              have hlast : ¬ 0 + 1 < count + 1 := fun hmore =>
                swept.heard 0 hmore (by rwa [Nat.add_zero])
              simp only [reachOf, hd]
              omega
          | ack =>
              simp only [reachOf, hd]
              omega
          | noError =>
              simp only [reachOf, hd]
              omega

/-- **A complete sweep leaves nothing.** -/
theorem sweepAt_clears (priority : Nat) (net : Nat → Delivery) (rounds used : Nat)
    (rules : List Rule) (swept : Swept (countAt rules priority) rounds net used) :
    countAt (sweepAt priority net rounds used rules).1 priority = 0 := by
  have hle := swept.le_reachOf
  rw [countAt_eq_length] at hle
  rw [countAt_eq_length, sweepAt_rulesAt, List.length_drop]
  omega

theorem priorities_ne : rulePriorityExempt ≠ rulePriorityPlain := by decide

/-- The sweep of both priorities clears the exempt one when its half is
complete. -/
theorem sweep_clears (net : Nat → Delivery) (rules : List Rule)
    (swept : Swept (countAt rules rulePriorityExempt) 8 net 0) :
    countAt (sweep net rules).1 rulePriorityExempt = 0 := by
  have hfirst := sweepAt_clears rulePriorityExempt net 8 0 rules swept
  rw [countAt_eq_length] at hfirst
  rw [countAt_eq_length, sweep, sweepAt_rulesAt_of_ne _ _ _ _ priorities_ne]
  exact hfirst

/-- Whether a call of `add_rule` for the plain priority gets rid of every exempt
rule: the interface resolves and the sweep is complete. -/
def Demotes (env : RuleEnv) (rules : List Rule) : Prop :=
  env.index.isSome = true ∧ Swept (countAt rules rulePriorityExempt) 8 env.net 0

/-- **Demotion.**  After such a call no rule is above the kill-switch, whether or
not the plain rule could be added. -/
theorem addRule_demotes (env : RuleEnv) (rules : List Rule) (h : Demotes env rules) :
    hasRule (addRule env false rules).2 rulePriorityExempt = false := by
  obtain ⟨hindex, swept⟩ := h
  obtain ⟨index, hindex⟩ := Option.isSome_iff_exists.mp hindex
  have hclear := sweep_clears env.net rules swept
  rw [hasRule_eq_false]
  unfold addRule
  rw [hindex]
  cases env.uid with
  | none => exact hclear
  | some uid =>
      simp only [Bool.false_eq_true, if_false]
      split
      · simpa [countAt, rulePriorityPlain, rulePriorityExempt] using hclear
      · exact hclear

/-! ## Exactly when it demotes -/

/-- The rules that the two halves of the sweep leave: at the exempt priority from
the first request on, at the plain one from the request after that. -/
def leftExempt (net : Nat → Delivery) (rules : List Rule) : List Rule :=
  (rulesAt rules rulePriorityExempt).drop (reachOf net 8 0)

def plainStart (net : Nat → Delivery) (rules : List Rule) : Nat :=
  afterSweep net 8 0 (rulesAt rules rulePriorityExempt).length

def leftPlain (net : Nat → Delivery) (rules : List Rule) : List Rule :=
  (rulesAt rules rulePriorityPlain).drop (reachOf net 8 (plainStart net rules))

/-- The request that adds. -/
def addRequest (net : Nat → Delivery) (rules : List Rule) : Nat :=
  afterSweep net 8 (plainStart net rules) (rulesAt rules rulePriorityPlain).length

theorem sweep_rulesAt_exempt (net : Nat → Delivery) (rules : List Rule) :
    rulesAt (sweep net rules).1 rulePriorityExempt = leftExempt net rules := by
  rw [sweep, sweepAt_rulesAt_of_ne _ _ _ _ priorities_ne, sweepAt_rulesAt, leftExempt]

theorem sweep_rulesAt_plain (net : Nat → Delivery) (rules : List Rule) :
    rulesAt (sweep net rules).1 rulePriorityPlain = leftPlain net rules := by
  rw [sweep, sweepAt_rulesAt, sweepAt_used, sweepAt_rulesAt_of_ne _ _ _ _ priorities_ne.symm]
  rfl

theorem sweep_used (net : Nat → Delivery) (rules : List Rule) :
    (sweep net rules).2.1 = addRequest net rules := by
  rw [sweep, sweepAt_used, sweepAt_used, sweepAt_rulesAt_of_ne _ _ _ _ priorities_ne.symm]
  rfl

/-- The rule that a demotion adds. -/
def plainRule (env : RuleEnv) (index uid : Nat) : Rule :=
  { oifname := env.iface, table := index, priority := rulePriorityPlain, uid := uid }

theorem mem_rulesAt {rules : List Rule} {rule : Rule} {priority : Nat} :
    rule ∈ rulesAt rules priority ↔ rule ∈ rules ∧ rule.priority = priority := by
  simp [rulesAt]

/-- The plain rule goes in after the others and shows at its own priority only. -/
theorem rulesAt_added (rules : List Rule) (env : RuleEnv) (index uid : Nat) :
    rulesAt (rules ++ [plainRule env index uid]) rulePriorityExempt =
        rulesAt rules rulePriorityExempt ∧
      rulesAt (rules ++ [plainRule env index uid]) rulePriorityPlain =
        rulesAt rules rulePriorityPlain ++ [plainRule env index uid] := by
  have hne := priorities_ne.symm
  constructor
  · simp [rulesAt, plainRule, hne]
  · simp [rulesAt, plainRule]

theorem Delivery.reaches_of_ok {d : Delivery} (h : d.ok true = true) : d.reaches = true := by
  cases d with
  | unsent => exact absurd h (by decide)
  | unheard => exact absurd h (by decide)
  | ack => rfl
  | noError => rfl

theorem addRule_reports (env : RuleEnv) (rules : List Rule) {index uid : Nat}
    (hindex : env.index = some index) (huid : env.uid = some uid) :
    (addRule env false rules).1 = (env.net (addRequest env.net rules)).ok true := by
  unfold addRule
  rw [hindex, huid, ← sweep_used]

/-- The table after a demotion that reports success, at each priority. -/
theorem addRule_table (env : RuleEnv) (rules : List Rule) {index uid : Nat}
    (hindex : env.index = some index) (huid : env.uid = some uid)
    (hok : (env.net (addRequest env.net rules)).ok true = true) :
    rulesAt (addRule env false rules).2 rulePriorityExempt = leftExempt env.net rules ∧
    rulesAt (addRule env false rules).2 rulePriorityPlain =
      if plainRule env index uid ∈ leftPlain env.net rules then leftPlain env.net rules
      else leftPlain env.net rules ++ [plainRule env index uid] := by
  have hreaches := Delivery.reaches_of_ok hok
  rw [← sweep_used] at hreaches
  have hexempt := sweep_rulesAt_exempt env.net rules
  have hplain := sweep_rulesAt_plain env.net rules
  obtain ⟨haddE, haddP⟩ := rulesAt_added (sweep env.net rules).1 env index uid
  have hmem : plainRule env index uid ∈ (sweep env.net rules).1 ↔
      plainRule env index uid ∈ leftPlain env.net rules := by
    rw [← hplain, mem_rulesAt]
    exact ⟨fun h => ⟨h, rfl⟩, fun h => h.1⟩
  have hresult : (addRule env false rules).2 =
      if plainRule env index uid ∈ leftPlain env.net rules then (sweep env.net rules).1
      else (sweep env.net rules).1 ++ [plainRule env index uid] := by
    by_cases hin : plainRule env index uid ∈ leftPlain env.net rules
    · have hold := hmem.mpr hin
      simp only [plainRule] at hold
      rw [if_pos hin]
      unfold addRule
      simp [hindex, huid, hold]
    · have hnew := mt hmem.mp hin
      simp only [plainRule] at hnew
      rw [if_neg hin]
      unfold addRule
      simp [hindex, huid, hnew, hreaches, plainRule]
  rw [hresult]
  split
  · exact ⟨hexempt, hplain⟩
  · rw [haddE, haddP, hexempt, hplain]
    exact ⟨rfl, rfl⟩

/-- Once the rule is in, it is the only one if it found nothing or itself. -/
theorem length_added_eq_one (rule : Rule) (left : List Rule) :
    (if rule ∈ left then left else left ++ [rule]).length = 1 ↔ left = [] ∨ left = [rule] := by
  match left with
  | [] => simp
  | [r] =>
      by_cases hr : rule = r
      · simp [hr]
      · simp [hr, Ne.symm hr]
  | r :: q :: rest => split <;> simp

/-- What a demotion promises when it reports success: of the rules that are
`ours` none is left above the kill-switch, and there is one rule below it. -/
def Demoted (ours : Rule → Prop) (env : RuleEnv) (rules : List Rule) : Prop :=
  (addRule env false rules).1 = true →
    (∀ r ∈ (addRule env false rules).2, r.priority = rulePriorityExempt → ¬ ours r) ∧
    countAt (addRule env false rules).2 rulePriorityPlain = 1

/-- **Exactly when a demotion keeps its promise.**  Only when its last request is
answered is there a success to answer for.  Then no rule of ours may be among the
exempt ones that the deletes did not reach, and of the plain ones they may have
left nothing, or just the rule that is to be added. -/
theorem demoted_iff (ours : Rule → Prop) (env : RuleEnv) (rules : List Rule) :
    Demoted ours env rules ↔
      ∀ index uid, env.index = some index → env.uid = some uid →
        (env.net (addRequest env.net rules)).ok true = true →
        (∀ r ∈ leftExempt env.net rules, ¬ ours r) ∧
        (leftPlain env.net rules = [] ∨
          leftPlain env.net rules = [plainRule env index uid]) := by
  cases hindex : env.index with
  | none => simp [Demoted, addRule, hindex]
  | some index =>
      cases huid : env.uid with
      | none => simp [Demoted, addRule, hindex, huid]
      | some uid =>
          have hreports := addRule_reports env rules hindex huid
          have htable := addRule_table env rules hindex huid
          have hmem : (∀ r ∈ (addRule env false rules).2,
              r.priority = rulePriorityExempt → ¬ ours r) ↔
              ∀ r ∈ rulesAt (addRule env false rules).2 rulePriorityExempt, ¬ ours r := by
            simp only [mem_rulesAt, and_imp]
          unfold Demoted
          rw [hreports, hmem, countAt_eq_length]
          constructor
          · intro h index' uid' hi hu hok
            cases hi
            cases hu
            obtain ⟨he, hp⟩ := htable hok
            have hkept := h hok
            rwa [he, hp, length_added_eq_one] at hkept
          · intro h hok
            obtain ⟨he, hp⟩ := htable hok
            rw [he, hp, length_added_eq_one]
            exact h index uid rfl rfl hok

/-- A rule left by the previous run sits above the kill-switch, and the first
delete gets no socket.  The sweep takes that for "none left", the new rule goes
in, and the call reports success with the exemption still standing. -/
theorem stale_exempt_survives :
    ¬ Demoted (fun r => r.oifname = "tlink0")
      { iface := "tlink0", index := some 52, uid := some 7500,
        net := fun i => if i = 0 then .unsent else .ack }
      [{ oifname := "tlink0", table := 51, priority := rulePriorityExempt, uid := 7500 }] := by
  intro h
  have hleft := (h (by decide)).1
    { oifname := "tlink0", table := 51, priority := rulePriorityExempt, uid := 7500 }
    (by decide) rfl
  exact hleft rfl

end Tarishd
