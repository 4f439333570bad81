import NoSpam.Base.Run
import NoSpam.Base.Text

/-!
# The packet filter of the gateway

`netfilter_reset` opens and empties the chain `INPUT`, appends the rules that accept and at last
closes the chain by its policy.  `_netfilter_clean` and `_netfilter_set_fw` stop at the first
command that fails, but the second runs also when the first has failed.  The gateway is locked where
the policy drops what a missing rule would accept.  `safe_run_iff` says which runs of resets, with
any commands failing, never lock it.
-/

namespace NoSpam.Netfilter

open Text Machine

/-! ## The commands -/

/-- The policy of a chain. -/
inductive Policy
  | accept
  | drop
deriving DecidableEq

/-- The policy and the rules of `INPUT`, and the rules of `FORWARD` and of `PREROUTING` in the table
`nat`. -/
structure Tables where
  policy : Policy
  input : List Bytes
  forward : List Bytes
  prerouting : List Bytes
deriving DecidableEq

/-- The calls of iptables; a rule is what follows `-A INPUT`. -/
inductive Command
  | flushInput
  | flushForward
  | flushPrerouting
  | setPolicy (p : Policy)
  | append (rule : Bytes)

/-- A call that succeeds. -/
def Command.run (t : Tables) : Command → Tables
  | .flushInput => { t with input := [] }
  | .flushForward => { t with forward := [] }
  | .flushPrerouting => { t with prerouting := [] }
  | .setPolicy p => { t with policy := p }
  | .append rule => { t with input := t.input ++ [rule] }

/-- The calls from a number on, up to the first that returns something else than 0, and the number
of that one; it changes nothing. -/
def untilFailure (status : ℕ → ℤ) : ℕ → List Command → Tables → Option ℕ × Tables
  | _, [], t => (none, t)
  | n, c :: cs, t => if status n = 0 then untilFailure status (n + 1) cs (c.run t) else (some n, t)

def cleanCommands : List Command :=
  [.flushInput, .flushForward, .flushPrerouting, .setPolicy .accept]

/-- `_netfilter_clean`. -/
def netfilterClean (status : ℕ → ℤ) (t : Tables) : ℤ × Tables :=
  let r := untilFailure status 0 cleanCommands t
  match r.1 with
  | none => (0, r.2)
  | some n => (-10 - n, r.2)

/-- `ERR_NETFILTER_CALL`. -/
def errNetfilterCall : ℤ := 12

/-- The rules for addresses and for the two ports of the own net. -/
def sourceRules (ip : Bytes) : List Bytes :=
  [bytes "-p icmp -j ACCEPT", bytes "-s 127.0.0.0/8 -j ACCEPT", bytes "-s 10.0.0.0/8 -j ACCEPT",
    bytes "-s 172.16.0.0/20 -j ACCEPT", bytes "-s 192.168.0.0/16 -j ACCEPT",
    bytes "-s 202.205.10.10/32 -j ACCEPT", bytes "-s 202.112.80.0/24 -j ACCEPT",
    bytes "-s 202.112.81.0/24 -j ACCEPT", bytes "-s 211.157.100.10/26 -j ACCEPT",
    bytes "-s 211.151.91.20/27 -j ACCEPT", bytes "-s 211.151.89.113/29 -j ACCEPT",
    bytes "-s " ++ ip ++ bytes "/24 -p tcp --dport 40022 -j ACCEPT",
    bytes "-s " ++ ip ++ bytes "/24 -p tcp --dport 40023 -j ACCEPT"]

/-- The rules for the services. -/
def serviceRules : List Bytes :=
  [bytes "-p tcp --dport 25 -j ACCEPT", bytes "-p tcp --dport 26 -j ACCEPT",
    bytes "-p tcp --dport 80 -j ACCEPT", bytes "-p tcp --dport 110 -j ACCEPT",
    bytes "-p tcp --dport 443 -j ACCEPT", bytes "-p tcp --dport 995 -j ACCEPT"]

/-- The rule for the answers, the last one. -/
def stateRule : Bytes := bytes "-m state --state ESTABLISHED,RELATED -j ACCEPT"

/-- All rules, with `$conf->{config}->{Network}->{IP}`. -/
def rules (ip : Bytes) : List Bytes := sourceRules ip ++ serviceRules ++ [stateRule]

def fwCommands (ip : Bytes) : List Command := (rules ip).map .append ++ [.setPolicy .drop]

/-- `_netfilter_set_fw`. -/
def netfilterSetFw (ip : Bytes) (status : ℕ → ℤ) (t : Tables) : ℤ × Tables :=
  let r := untilFailure status 0 (fwCommands ip) t
  match r.1 with
  | none => (0, r.2)
  | some 0 => (errNetfilterCall, r.2)
  | some n => (status n, r.2)

/-- What the calls of a reset return, by their numbers. -/
structure Outcome where
  clean : ℕ → ℤ
  fw : ℕ → ℤ

/-- `netfilter_reset`. -/
def netfilterReset (ip : Bytes) (o : Outcome) (t : Tables) : ℤ × Tables :=
  let c := netfilterClean o.clean t
  let f := netfilterSetFw ip o.fw c.2
  (if f.1 ≠ 0 then 3 else if c.1 ≠ 0 then 2 else 0, f.2)

/-- The tables after a reset. -/
def resetStep (ip : Bytes) (t : Tables) (o : Outcome) : Tables := (netfilterReset ip o t).2

/-! ## What is to hold -/

/-- The chain is not closed while a rule is missing. -/
def Safe (ip : Bytes) (t : Tables) : Prop := t.policy = .drop → ∀ r ∈ rules ip, r ∈ t.input

/-- The reset finds the chain closed, empties it, fails before it has opened it, and then fails at a
rule as well. -/
def Locks (ip : Bytes) (t : Tables) (o : Outcome) : Prop :=
  t.policy = .drop ∧ o.clean 0 = 0 ∧ (∃ n < cleanCommands.length, o.clean n ≠ 0) ∧
    ∃ n < (rules ip).length, o.fw n ≠ 0

/-! ## A sequence of calls -/

section Calls

variable {status : ℕ → ℤ} {cs : List Command} {t : Tables}

/-- The calls before the first that fails are carried out. -/
theorem untilFailure_spec (status : ℕ → ℤ) (n : ℕ) (cs : List Command) (t : Tables) :
    (untilFailure status n cs t = (none, cs.foldl Command.run t) ∧
        ∀ k < cs.length, status (n + k) = 0) ∨
      ∃ k < cs.length, status (n + k) ≠ 0 ∧ (∀ j < k, status (n + j) = 0) ∧
        untilFailure status n cs t = (some (n + k), (cs.take k).foldl Command.run t) := by
  induction cs generalizing n t with
  | nil => exact Or.inl ⟨rfl, fun k hk => absurd hk (Nat.not_lt_zero k)⟩
  | cons c cs ih =>
    by_cases hn : status n = 0
    · have hfirst : untilFailure status n (c :: cs) t =
          untilFailure status (n + 1) cs (c.run t) := if_pos hn
      rcases ih (n + 1) (c.run t) with ⟨hall, hzero⟩ | ⟨k, hk, hfail, hzero, hrest⟩
      · refine Or.inl ⟨hfirst.trans hall, fun k hk => ?_⟩
        cases k with
        | zero => exact hn
        | succ k =>
          have := hzero k (by rw [List.length_cons] at hk; omega)
          rwa [show n + (k + 1) = n + 1 + k by omega]
      · refine Or.inr ⟨k + 1, by rw [List.length_cons]; omega, ?_, fun j hj => ?_, ?_⟩
        · rwa [show n + (k + 1) = n + 1 + k by omega]
        · cases j with
          | zero => exact hn
          | succ j =>
            have := hzero j (by omega)
            rwa [show n + (j + 1) = n + 1 + j by omega]
        · rw [hfirst, hrest, show n + (k + 1) = n + 1 + k by omega]
          rfl
    · refine Or.inr ⟨0, by simp, hn, fun j hj => absurd hj (Nat.not_lt_zero j), ?_⟩
      exact if_neg hn

theorem foldl_append (rs : List Bytes) (t : Tables) :
    (rs.map Command.append).foldl Command.run t = { t with input := t.input ++ rs } := by
  induction rs generalizing t with
  | nil => simp
  | cons r rs ih =>
    rw [List.map_cons, List.foldl_cons, ih]
    simp [Command.run]

/-- What `_netfilter_clean` leaves: everything, or the chain empty with its policy, or the chain
empty and open. -/
theorem netfilterClean_spec (status : ℕ → ℤ) (t : Tables) :
    (status 0 ≠ 0 ∧ netfilterClean status t = (-10, t)) ∨
      (status 0 = 0 ∧ (∃ n < cleanCommands.length, status n ≠ 0) ∧
        (netfilterClean status t).1 ≠ 0 ∧ (netfilterClean status t).2.policy = t.policy ∧
          (netfilterClean status t).2.input = []) ∨
      ((∀ n < cleanCommands.length, status n = 0) ∧
        netfilterClean status t = (0, ⟨.accept, [], [], []⟩)) := by
  rcases untilFailure_spec status 0 cleanCommands t with
    ⟨hall, hzero⟩ | ⟨k, hk, hfail, hzero, hrest⟩
  · refine Or.inr (Or.inr ⟨fun n hn => ?_, ?_⟩)
    · rw [← hzero n hn, Nat.zero_add]
    · rw [netfilterClean, hall]
      rfl
  · rw [Nat.zero_add] at hfail hrest
    cases k with
    | zero =>
      refine Or.inl ⟨hfail, ?_⟩
      rw [netfilterClean, hrest]
      rfl
    | succ k =>
      have hfirst : status 0 = 0 := by simpa using hzero 0 (Nat.succ_pos k)
      refine Or.inr (Or.inl ⟨hfirst, ⟨k + 1, hk, hfail⟩, ?_⟩)
      have hk' : k < 3 := by
        have : cleanCommands.length = 4 := rfl
        omega
      rw [netfilterClean, hrest]
      refine ⟨?_, ?_, ?_⟩
      · show (-10 - ((k + 1 : ℕ) : ℤ)) ≠ 0
        omega
      · obtain rfl | rfl | rfl : k = 0 ∨ k = 1 ∨ k = 2 := by omega
        all_goals rfl
      · obtain rfl | rfl | rfl : k = 0 ∨ k = 1 ∨ k = 2 := by omega
        all_goals rfl

/-- What `_netfilter_set_fw` leaves: all rules and the chain closed, all rules and the policy as it
was, or some of the rules and the policy as it was. -/
theorem netfilterSetFw_spec (ip : Bytes) (status : ℕ → ℤ) (t : Tables) :
    ((∀ n < (rules ip).length, status n = 0) ∧ netfilterSetFw ip status t =
        (0, { t with policy := .drop, input := t.input ++ rules ip })) ∨
      ((∀ n < (rules ip).length, status n = 0) ∧ (netfilterSetFw ip status t).1 ≠ 0 ∧
        (netfilterSetFw ip status t).2 = { t with input := t.input ++ rules ip }) ∨
      ∃ k < (rules ip).length, status k ≠ 0 ∧ (netfilterSetFw ip status t).1 ≠ 0 ∧
        (netfilterSetFw ip status t).2 = { t with input := t.input ++ (rules ip).take k } := by
  have hlength : (fwCommands ip).length = (rules ip).length + 1 := by simp [fwCommands]
  rcases untilFailure_spec status 0 (fwCommands ip) t with
    ⟨hall, hzero⟩ | ⟨k, hk, hfail, hzero, hrest⟩
  · refine Or.inl ⟨fun n hn => ?_, ?_⟩
    · rw [← hzero n (by omega), Nat.zero_add]
    rw [netfilterSetFw, hall, fwCommands, List.foldl_append, foldl_append]
    rfl
  · rw [Nat.zero_add] at hfail hrest
    have hcode : (netfilterSetFw ip status t).1 ≠ 0 := by
      rw [netfilterSetFw, hrest]
      cases k with
      | zero => exact (by decide : errNetfilterCall ≠ 0)
      | succ k => exact hfail
    have hleft : (netfilterSetFw ip status t).2 = ((fwCommands ip).take k).foldl Command.run t := by
      rw [netfilterSetFw, hrest]
      cases k <;> rfl
    have htake : (fwCommands ip).take k = ((rules ip).take k).map .append := by
      rw [fwCommands, List.take_append_of_le_length (by rw [List.length_map]; omega), List.map_take]
    rw [htake, foldl_append] at hleft
    by_cases hlast : k < (rules ip).length
    · exact Or.inr (Or.inr ⟨k, hlast, hfail, hcode, hleft⟩)
    · obtain rfl : k = (rules ip).length := by omega
      rw [List.take_length] at hleft
      refine Or.inr (Or.inl ⟨fun n hn => ?_, hcode, hleft⟩)
      rw [← hzero n hn, Nat.zero_add]

end Calls

/-! ## One reset -/

section Reset

variable {ip : Bytes} {t : Tables} {o : Outcome}

theorem resetStep_eq (ip : Bytes) (t : Tables) (o : Outcome) :
    resetStep ip t o = (netfilterSetFw ip o.fw (netfilterClean o.clean t).2).2 := rfl

/-- A reset that says 0 leaves exactly the rules, and the chain closed. -/
theorem tables_of_reset_eq_zero (h : (netfilterReset ip o t).1 = 0) :
    (netfilterReset ip o t).2 = ⟨.drop, rules ip, [], []⟩ := by
  have hcodes : (netfilterSetFw ip o.fw (netfilterClean o.clean t).2).1 = 0 ∧
      (netfilterClean o.clean t).1 = 0 := by
    rw [netfilterReset] at h
    dsimp only at h
    split_ifs at h with hf hc
    · exact absurd h (by decide)
    · exact absurd h (by decide)
    · exact ⟨of_not_not hf, of_not_not hc⟩
  rcases netfilterClean_spec o.clean t with ⟨-, hclean⟩ | ⟨-, -, hne, -⟩ | ⟨-, hclean⟩
  · rw [hclean] at hcodes
    exact absurd hcodes.2 (by decide : (-10 : ℤ) ≠ 0)
  · exact absurd hcodes.2 hne
  · rw [hclean] at hcodes
    rcases netfilterSetFw_spec ip o.fw ⟨.accept, [], [], []⟩ with
      ⟨-, hfw⟩ | ⟨-, hne, -⟩ | ⟨k, -, -, hne, -⟩
    · rw [netfilterReset, hclean, hfw]
      rfl
    · exact absurd hcodes.1 hne
    · exact absurd hcodes.1 hne

theorem stateRule_not_mem_take {k : ℕ} (hk : k < (rules ip).length) :
    stateRule ∉ (rules ip).take k := by
  have hsecond : (sourceRules ip ++ serviceRules).all (fun r => r.tail.head? != some 109) = true :=
    rfl
  have hfront : (rules ip).length = (sourceRules ip ++ serviceRules).length + 1 := by
    rw [rules, List.length_append, List.length_singleton]
  rw [rules, List.take_append_of_le_length (by omega)]
  intro hmem
  have hne := List.all_eq_true.1 hsecond stateRule (List.mem_of_mem_take hmem)
  exact absurd hne (by decide)

/-- A reset that does not lock leaves a safe chain safe. -/
theorem safe_resetStep (h : Safe ip t) (hok : ¬Locks ip t o) : Safe ip (resetStep ip t o) := by
  rw [resetStep_eq]
  intro hdrop r hr
  rcases netfilterSetFw_spec ip o.fw (netfilterClean o.clean t).2 with
    ⟨-, hfw⟩ | ⟨-, -, hfw⟩ | ⟨k, hk, hfail, -, hfw⟩
  · rw [hfw]
    exact List.mem_append_right _ hr
  · rw [hfw]
    exact List.mem_append_right _ hr
  · rw [hfw] at hdrop ⊢
    apply List.mem_append_left
    rcases netfilterClean_spec o.clean t with
      ⟨-, hclean⟩ | ⟨hzero, hsome, -, hpolicy, -⟩ | ⟨-, hclean⟩
    · rw [hclean] at hdrop ⊢
      exact h hdrop r hr
    · exact absurd ⟨hpolicy.symm.trans hdrop, hzero, hsome, k, hk, hfail⟩ hok
    · rw [hclean] at hdrop
      cases hdrop

/-- A reset that locks leaves the chain closed without its last rule. -/
theorem not_safe_of_locks (h : Locks ip t o) : ¬Safe ip (resetStep ip t o) := by
  obtain ⟨hdrop, hzero, ⟨n, hn, hfail⟩, m, hm, hfail'⟩ := h
  rw [resetStep_eq]
  intro hsafe
  rcases netfilterClean_spec o.clean t with ⟨hne, -⟩ | ⟨-, -, -, hpolicy, hinput⟩ | ⟨hall, -⟩
  · exact hne hzero
  · rcases netfilterSetFw_spec ip o.fw (netfilterClean o.clean t).2 with
      ⟨hall, -⟩ | ⟨hall, -⟩ | ⟨k, hk, -, -, hfw⟩
    · exact hfail' (hall m hm)
    · exact hfail' (hall m hm)
    · rw [hfw] at hsafe
      have hmem := hsafe (hpolicy.trans hdrop) stateRule (List.mem_append_right _ (by simp))
      rw [hinput, List.nil_append] at hmem
      exact stateRule_not_mem_take hk hmem
  · exact hfail (hall n hn)

end Reset

/-! ## Runs of resets -/

/-- **The gateway is locked by one kind of reset only**: over any run of resets with any commands
failing, the chain is never closed while a rule is missing if and only if no reset finds it closed,
empties it, fails to open it and then fails at a rule. -/
theorem safe_run_iff {ip : Bytes} {t : Tables} (h : Safe ip t) (os : List Outcome) :
    (∀ os', os' <+: os → Safe ip (run (resetStep ip) t os')) ↔
      Meets (resetStep ip) (fun t o => ¬Locks ip t o) t os :=
  forall_prefix_iff_meets (fun _ ht => ht) (fun _ _ ht hok => safe_resetStep ht hok)
    (fun _ _ _ hsafe hlocks => not_safe_of_locks hlocks hsafe) h

/-- The tables when the system has started. -/
def atBoot : Tables := ⟨.accept, [], [], []⟩

/-- A reset of which the call with this number fails in each of the two parts. -/
def failing (n m : ℕ) : Outcome :=
  ⟨fun k => if k = n then 1 else 0, fun k => if k = m then 1 else 0⟩

/-- A reset that works, and one that cannot empty `FORWARD` and fails at the third rule. -/
theorem safe_run_iff_locked :
    ¬∀ os', os' <+: [failing 99 99, failing 1 2] →
      Safe (bytes "10.0.0.1") (run (resetStep (bytes "10.0.0.1")) atBoot os') := by
  have hboot : Safe (bytes "10.0.0.1") atBoot := fun hdrop => by cases hdrop
  rw [safe_run_iff hboot]
  rintro ⟨-, hlocks, -⟩
  exact hlocks ⟨by decide, by decide, ⟨1, by decide, by decide⟩, 2, by decide, by decide⟩

end NoSpam.Netfilter
