import TarishDaemon.Sharingd.RecordOrder

/-!
# Goodbyes

A packet whose records of an instance all have TTL 0 takes the instance off the network.
What it does to a table is what any records of the instance do: they open an entry, and
they are a sign of life.

On the LAN the TTL is not looked at.  On AWDL it is, but a goodbye grants a second from when
it is heard, also to an entry that had less than that, or that was not there
(`goodbye_iff`).
-/

namespace Sharingd.Dns.Told

open Rust

variable {Addr : Type} (k host : Text)

/-- The entry of the instance, at this host, hears of it. -/
def Reaches : Told Addr → Prop
  | found inst => inst = k
  | served inst _ _ => inst = k
  | described inst _ => inst = k
  | located h _ => host ≠ [] ∧ host = h

/-- It names the instance, or a host of it. -/
def Concerns (isHost : Text → Prop) : Told Addr → Prop
  | found inst => inst = k
  | served inst _ _ => inst = k
  | described inst _ => inst = k
  | located h _ => isHost h

/-- What a goodbye withdraws an instance by. -/
def Withdraws : Told Addr → Prop
  | found inst => inst = k
  | served inst _ _ => inst = k
  | _ => False

theorem Withdraws.reaches {k : Text} {t : Told Addr} (h : t.Withdraws k) (host : Text) :
    t.Reaches k host := by
  cases t with
  | found inst => exact h
  | served inst port host => exact h
  | described inst name => cases h
  | located host addr => cases h

theorem Reaches.concerns {k host : Text} {t : Told Addr} (h : t.Reaches k host)
    {isHost : Text → Prop} (hhost : host = [] ∨ isHost host) : t.Concerns k isHost := by
  cases t with
  | found inst => exact h
  | served inst port host => exact h
  | described inst name => exact h
  | located located addr =>
      obtain ⟨hne, rfl⟩ := h
      exact hhost.resolve_left hne

end Sharingd.Dns.Told

/-! ## On the LAN -/

namespace Quickshare.QsBrowser

open Rust Sharingd Sharingd.Dns

variable {now : Nat} {k : Text}

/-- No entry is made, and none is kept past when it would have been dropped. -/
def NoLonger (now : Nat) (before after : Option QsPeer) : Prop :=
  ∀ p', after = some p' → ∃ p, before = some p ∧
    ∀ olderThan later, now ≤ later → keeps olderThan later p' → keeps olderThan later p

/-- Nothing in the packet reaches the entry, or it has only just been seen; and nothing opens
one that is not there. -/
def Unmoved (packet : Bytes) (now : Nat) (k : Text) (records : List Dns.Record) :
    Option QsPeer → Prop
  | none => ∀ r ∈ records, told packet r ≠ some (.found k)
  | some p =>
      now ≤ p.lastSeen ∨
        ∀ r ∈ records, ∀ t, told packet r = some t → ¬ t.Reaches k p.host

variable (now) in
theorem hears_reached {p : QsPeer} {t : Told Ipv4Addr} (h : t.Reaches k p.host) :
    ∃ q, hears now k (some p) (some t) = some q ∧ q.lastSeen = now := by
  cases t with
  | found inst =>
      have hk : k = inst := Eq.symm h
      simp [hears, hear, hk]
  | served inst port host =>
      have hk : k = inst := Eq.symm h
      simp [hears, hear, hk]
  | described inst name =>
      have hk : k = inst := Eq.symm h
      simp [hears, hear, hk]
  | located host addr =>
      have hhost : p.host ≠ [] ∧ p.host = host := h
      refine ⟨{ p with addr := some addr, lastSeen := now }, ?_, rfl⟩
      simp only [hears, Option.elim_some, hear, Option.map_some, if_pos hhost]

theorem hears_unreached {p : QsPeer} {t : Option (Told Ipv4Addr)}
    (h : ∀ t', t = some t' → ¬ t'.Reaches k p.host) : hears now k (some p) t = some p := by
  cases t with
  | none => rfl
  | some t =>
      have hnot := h t rfl
      cases t with
      | found inst =>
          have hk : k ≠ inst := fun hk => hnot (Eq.symm hk)
          simp [hears, hear, hk]
      | served inst port host =>
          have hk : k ≠ inst := fun hk => hnot (Eq.symm hk)
          simp [hears, hear, hk]
      | described inst name =>
          have hk : k ≠ inst := fun hk => hnot (Eq.symm hk)
          simp [hears, hear, hk]
      | located host addr =>
          have hhost : ¬ (p.host ≠ [] ∧ p.host = host) := hnot
          simp only [hears, Option.elim_some, hear, Option.map_some, if_neg hhost]

theorem hears_none {t : Option (Told Ipv4Addr)} (h : t ≠ some (.found k)) :
    hears now k none t = none := by
  cases t with
  | none => rfl
  | some t =>
      cases t with
      | found inst =>
          have hk : k ≠ inst := by
            intro heq
            subst heq
            exact h rfl
          simp [hears, hear, hk]
      | served inst port host => simp [hears, hear]
      | described inst name => simp [hears, hear]
      | located host addr => simp [hears, hear]

variable (now) in
/-- An entry that has been heard of stays. -/
theorem foldl_seen (ts : List (Option (Told Ipv4Addr))) {p : QsPeer} (hp : p.lastSeen = now) :
    ∃ q, ts.foldl (hears now k) (some p) = some q ∧ q.lastSeen = now := by
  induction ts generalizing p with
  | nil => exact ⟨p, rfl, hp⟩
  | cons t ts ih =>
      rw [List.foldl_cons]
      by_cases reached : ∃ t', t = some t' ∧ t'.Reaches k p.host
      · obtain ⟨t', rfl, ht⟩ := reached
        obtain ⟨q, hq, hseen⟩ := hears_reached now ht
        rw [hq]
        exact ih hseen
      · have hrest : hears now k (some p) t = some p :=
          hears_unreached fun t' ht hreach => reached ⟨t', ht, hreach⟩
        rw [hrest]
        exact ih hp

variable (now) in
theorem foldl_reached (ts : List (Option (Told Ipv4Addr))) {p : QsPeer}
    (reached : ∃ t, some t ∈ ts ∧ t.Reaches k p.host) :
    ∃ q, ts.foldl (hears now k) (some p) = some q ∧ q.lastSeen = now := by
  induction ts with
  | nil =>
      obtain ⟨t, hmem, -⟩ := reached
      cases hmem
  | cons t ts ih =>
      rw [List.foldl_cons]
      by_cases first : ∃ t', t = some t' ∧ t'.Reaches k p.host
      · obtain ⟨t', rfl, ht⟩ := first
        obtain ⟨q, hq, hseen⟩ := hears_reached now ht
        rw [hq]
        exact foldl_seen now ts hseen
      · have hrest : hears now k (some p) t = some p :=
          hears_unreached fun t' ht hreach => first ⟨t', ht, hreach⟩
        rw [hrest]
        obtain ⟨t', hmem, ht⟩ := reached
        apply ih
        rcases List.mem_cons.mp hmem with hhead | hmem
        · exact absurd ⟨t', hhead.symm, ht⟩ first
        · exact ⟨t', hmem, ht⟩

theorem foldl_unreached (ts : List (Option (Told Ipv4Addr))) {p : QsPeer}
    (unreached : ∀ t, some t ∈ ts → ¬ t.Reaches k p.host) :
    ts.foldl (hears now k) (some p) = some p := by
  induction ts with
  | nil => rfl
  | cons t ts ih =>
      have hrest : hears now k (some p) t = some p := by
        apply hears_unreached
        intro t' heq
        subst heq
        exact unreached t' List.mem_cons_self
      rw [List.foldl_cons, hrest]
      exact ih fun t' hmem => unreached t' (List.mem_cons_of_mem _ hmem)

variable (now) in
theorem foldl_none_iff (ts : List (Option (Told Ipv4Addr))) :
    ts.foldl (hears now k) none = none ↔ some (.found k) ∉ ts := by
  induction ts with
  | nil => simp
  | cons t ts ih =>
      rw [List.foldl_cons, List.mem_cons]
      by_cases ht : t = some (.found k)
      · subst ht
        have hfound : hears now k none (some (.found k)) = some (fresh k now) := by
          simp [hears, hear, fresh]
        obtain ⟨q, hq, -⟩ := foldl_seen now (k := k) ts (p := fresh k now) rfl
        rw [hfound, hq]
        simp
      · rw [hears_none ht, ih]
        simp [Ne.symm ht]

variable (now) in
theorem foldl_told_none_iff (packet : Bytes) (records : List Dns.Record) :
    (records.map (told packet)).foldl (hears now k) none = none ↔
      ∀ r ∈ records, told packet r ≠ some (.found k) := by
  rw [foldl_none_iff]
  constructor
  · intro h r hr hfound
    exact h (hfound ▸ List.mem_map_of_mem hr)
  · intro h hmem
    obtain ⟨r, hr, hfound⟩ := List.mem_map.mp hmem
    exact h r hr hfound

/-- An entry that has just been seen is kept longer, unless it had been just before. -/
theorem noLonger_seen {p q : QsPeer} (hseen : q.lastSeen = now) :
    NoLonger now (some p) (some q) ↔ now ≤ p.lastSeen := by
  constructor
  · intro h
    obtain ⟨p₀, hp₀, hkeeps⟩ := h q rfl
    cases hp₀
    have hone := hkeeps 1 now (le_refl now)
    simp only [keeps, hseen, decide_eq_true_eq] at hone
    have hdue : now - p.lastSeen < 1 := hone (by omega)
    omega
  · intro hjust p' hp'
    cases hp'
    refine ⟨p, rfl, ?_⟩
    intro olderThan later hlater hkept
    simp only [keeps, hseen, decide_eq_true_eq] at hkept ⊢
    omega

/-- **A packet and one entry on the LAN**, whatever the TTL. -/
theorem noLonger_iff (packet : Bytes) (now : Nat) (records : List Dns.Record)
    (peers : HashMap Text QsPeer) (k : Text) :
    NoLonger now (peers.lookup k) ((absorb packet now records peers).lookup k) ↔
      Unmoved packet now k records (peers.lookup k) := by
  rw [absorb_lookup]
  cases peers.lookup k with
  | none =>
      have hnone := foldl_told_none_iff now (k := k) packet records
      constructor
      · intro h
        apply hnone.mp
        by_contra hopened
        obtain ⟨q, hq⟩ := Option.ne_none_iff_exists'.mp hopened
        obtain ⟨p, hp, -⟩ := h q hq
        cases hp
      · intro h p' hp'
        rw [hnone.mpr h] at hp'
        cases hp'
  | some p =>
      by_cases reached : ∃ r ∈ records, ∃ t, told packet r = some t ∧ t.Reaches k p.host
      · obtain ⟨r, hr, t, ht, hreach⟩ := reached
        have hmem : ∃ t, some t ∈ records.map (told packet) ∧ t.Reaches k p.host :=
          ⟨t, List.mem_map.mpr ⟨r, hr, ht⟩, hreach⟩
        obtain ⟨q, hq, hseen⟩ := foldl_reached now _ hmem
        rw [hq, noLonger_seen hseen]
        constructor
        · exact Or.inl
        · intro hcase
          rcases hcase with hjust | hunreached
          · exact hjust
          · exact absurd hreach (hunreached r hr t ht)
      · have hsame : (records.map (told packet)).foldl (hears now k) (some p) = some p := by
          apply foldl_unreached
          intro t hmem hreach
          obtain ⟨r, hr, ht⟩ := List.mem_map.mp hmem
          exact reached ⟨r, hr, t, ht, hreach⟩
        rw [hsame]
        constructor
        · intro _
          refine Or.inr ?_
          intro r hr t ht hreach
          exact reached ⟨r, hr, t, ht, hreach⟩
        · intro _ p' hp'
          exact ⟨p', hp', fun _ _ _ hkept => hkept⟩

end Quickshare.QsBrowser

/-! ## On AWDL -/

namespace Sharingd.Mdns.Browser

open Rust Dns

variable {me : Own} {packet : Bytes} {now : Nat} {k : Text}

/-- No entry is made, and none is kept past when it would have been dropped. -/
def NoLonger (g : Gate) (minGrace now : Nat) (before after : Option Peer) : Prop :=
  ∀ p', after = some p' → ∃ p, before = some p ∧
    ∀ later, now ≤ later → keeps g minGrace later p' → keeps g minGrace later p

/-- A host that the instance has, in the table or by the packet. -/
def IsHost (me : Own) (packet : Bytes) (k : Text) (records : List Record) (before : Option Peer)
    (host : Text) : Prop :=
  (∃ p, before = some p ∧ p.host = host) ∨
    ∃ r ∈ records, ∃ port, told me packet r = some (.served k port host)

/-- All records that name the instance, or a host of it, have TTL 0. -/
def Goodbye (me : Own) (packet : Bytes) (k : Text) (records : List Record) (before : Option Peer) :
    Prop :=
  ∀ r ∈ records, ∀ t, told me packet r = some t →
    t.Concerns k (IsHost me packet k records before) → r.ttl = 0

/-- The host of the entry, as the packet leaves it. -/
def hostThen (me : Own) (packet : Bytes) (k : Text) (records : List Record)
    (before : Option Peer) : Option Text :=
  ((records.map (told me packet)).foldl (Listed.hears me.isSelfAddr k)
    (before.map Peer.listed)).map Listed.host

/-- The record gives our own address to this host. -/
def GivesOwn (me : Own) (packet : Bytes) (host : Option Text) (r : Record) : Prop :=
  ∃ h addr, told me packet r = some (.located h addr) ∧ me.isSelfAddr addr ∧ host = some h

/-- The entry is taken for our own, and not opened again. -/
def TakenOff (me : Own) (packet : Bytes) (k : Text) (records : List Record)
    (before : Option Peer) : Prop :=
  ∃ earlier r later, records = earlier ++ r :: later ∧
    GivesOwn me packet (hostThen me packet k earlier before) r ∧
    ∀ x ∈ later, told me packet x ≠ some (.found k)

/-- Some record of the packet reaches the entry. -/
def Reached (me : Own) (packet : Bytes) (k : Text) (records : List Record) (p : Peer) : Prop :=
  ∃ r ∈ records, ∃ t, told me packet r = some t ∧ t.Reaches k p.host

/-- The entry is withdrawn, already or by the packet. -/
def Withdrawn (me : Own) (packet : Bytes) (k : Text) (records : List Record)
    (before : Option Peer) : Prop :=
  (∃ p, before = some p ∧ p.withdrawn) ∨
    ∃ r ∈ records, ∃ t, told me packet r = some t ∧ t.Withdraws k

/-- Until when a goodbye heard now keeps an entry. -/
def Granted (g : Gate) (minGrace now later : Nat) (withdrawn : Prop) : Prop :=
  later < now + second ∨ ¬ withdrawn ∧ (¬ g.ripe later ∨ later < now + minGrace)

/-- Nothing in the packet reaches the entry, or the entry had as long anyway as a goodbye grants;
and nothing opens one that is not there. -/
def Unmoved (me : Own) (packet : Bytes) (g : Gate) (minGrace now : Nat) (k : Text)
    (records : List Record) : Option Peer → Prop
  | none => ∀ r ∈ records, told me packet r ≠ some (.found k)
  | some p =>
      ¬ Reached me packet k records p ∨
        ∀ later, now ≤ later →
          Granted g minGrace now later (Withdrawn me packet k records (some p)) →
            keeps g minGrace later p

/-- What a goodbye leaves of an entry. -/
structure Bidden (now : Nat) (withdrawn : Prop) (p : Peer) : Prop where
  lastSeen : p.lastSeen = now
  unanswered : p.unanswered = 0
  expiresAt : p.expiresAt = now + second
  withdrawn_iff : p.withdrawn ↔ withdrawn

theorem Bidden.keeps_iff {withdrawn : Prop} {p : Peer} (h : Bidden now withdrawn p) (g : Gate)
    (minGrace : Nat) {later : Nat} (hlater : now ≤ later) :
    keeps g minGrace later p ↔ Granted g minGrace now later withdrawn := by
  obtain ⟨hseen, hasked, hlease, hw⟩ := h
  have hfew : ¬ (0 ≥ lostUnanswered) := by decide
  unfold keeps Granted
  rw [← hw, hseen, hasked, hlease]
  cases hripe : g.ripe later with
  | false =>
      cases p.withdrawn with
      | false => simp
      | true => simp
  | true =>
      cases p.withdrawn with
      | false =>
          simp [hfew]
          omega
      | true =>
          simp [hfew]
          omega

/-! ### One record -/

variable (now) in
theorem hears_reached {q : Peer} {r : Record} {t : Told Ipv6Addr} (ht : told me packet r = some t)
    (hreach : t.Reaches k q.host) (notOwn : ¬ GivesOwn me packet (some q.host) r)
    (zero : r.ttl = 0) :
    ∃ q', hears me packet now k (some q) r = some q' ∧
      Bidden now (q.withdrawn ∨ t.Withdraws k) q' ∧
      (q'.host = q.host ∨ ∃ port, t = .served k port q'.host) := by
  have hlease : ttlOf r = second := by
    rw [ttlOf, if_pos zero]
  unfold hears
  rw [ht]
  cases t with
  | found inst =>
      have hk : k = inst := Eq.symm hreach
      subst hk
      refine ⟨{ q with
        lastSeen := now
        unanswered := 0
        expiresAt := now + ttlOf r
        withdrawn := q.withdrawn || r.ttl == 0 }, ?_, ⟨rfl, rfl, ?_, ?_⟩, Or.inl rfl⟩
      · simp [hear]
      · simp [hlease]
      · simp [zero, Told.Withdraws]
  | served inst port host =>
      have hk : k = inst := Eq.symm hreach
      subst hk
      refine ⟨{ heardAt now r q with port, host, withdrawn := q.withdrawn || r.ttl == 0 }, ?_,
        ⟨rfl, rfl, ?_, ?_⟩, Or.inr ⟨port, rfl⟩⟩
      · simp [hear]
      · simp [heardAt, hlease, zero]
      · simp [zero, Told.Withdraws]
  | described inst name =>
      have hk : k = inst := Eq.symm hreach
      subst hk
      refine ⟨heardAt now r q, ?_, ⟨rfl, rfl, ?_, ?_⟩, Or.inl rfl⟩
      · simp [hear]
      · simp [heardAt, hlease, zero]
      · simp [heardAt, Told.Withdraws]
  | located host addr =>
      have hhost : q.host ≠ [] ∧ q.host = host := hreach
      have hother : me.isSelfAddr addr = false := by
        cases hown : me.isSelfAddr addr with
        | false => rfl
        | true => exact absurd ⟨host, addr, ht, hown, congrArg some hhost.2⟩ notOwn
      refine ⟨{ heardAt now r q with addr := some addr }, ?_, ⟨rfl, rfl, ?_, ?_⟩, Or.inl rfl⟩
      · simp only [Option.elim_some, hear, hother, Bool.false_eq_true, if_false, Option.map_some,
          if_pos hhost]
      · simp [heardAt, hlease, zero]
      · simp [heardAt, Told.Withdraws]

theorem hears_unreached {q : Peer} {r : Record}
    (unreached : ∀ t, told me packet r = some t → ¬ t.Reaches k q.host)
    (notOwn : ¬ GivesOwn me packet (some q.host) r) :
    hears me packet now k (some q) r = some q := by
  unfold hears
  cases ht : told me packet r with
  | none => rfl
  | some t =>
      have hnot := unreached t ht
      cases t with
      | found inst =>
          have hk : k ≠ inst := fun hk => hnot (Eq.symm hk)
          simp [hear, hk]
      | served inst port host =>
          have hk : k ≠ inst := fun hk => hnot (Eq.symm hk)
          simp [hear, hk]
      | described inst name =>
          have hk : k ≠ inst := fun hk => hnot (Eq.symm hk)
          simp [hear, hk]
      | located host addr =>
          have hhost : ¬ (q.host ≠ [] ∧ q.host = host) := hnot
          cases hown : me.isSelfAddr addr with
          | false =>
              simp only [Option.elim_some, hear, hown, Bool.false_eq_true, if_false,
                Option.map_some, if_neg hhost]
          | true =>
              have hne : q.host ≠ host := by
                intro heq
                exact notOwn ⟨host, addr, ht, hown, congrArg some heq⟩
              simp [hear, hown, Option.filter, hne]

theorem hears_own {q : Peer} {r : Record} (own : GivesOwn me packet (some q.host) r) :
    hears me packet now k (some q) r = none := by
  obtain ⟨host, addr, ht, hown, hhost⟩ := own
  have hq : q.host = host := Option.some.inj hhost
  simp [hears, ht, hear, hown, Option.filter, hq]

theorem hears_absent {r : Record} (h : told me packet r ≠ some (.found k)) :
    hears me packet now k none r = none := by
  unfold hears
  cases ht : told me packet r with
  | none => rfl
  | some t =>
      cases t with
      | found inst =>
          have hk : k ≠ inst := by
            intro heq
            subst heq
            exact h ht
          simp [hear, hk]
      | served inst port host => simp [hear]
      | described inst name => simp [hear]
      | located host addr =>
          cases hown : me.isSelfAddr addr with
          | false => simp [hear, hown]
          | true => simp [hear, hown]

variable (now) in
theorem hears_found {r : Record} (h : told me packet r = some (.found k)) (zero : r.ttl = 0) :
    ∃ q', hears me packet now k none r = some q' ∧ Bidden now True q' ∧ q'.host = [] := by
  have hlease : ttlOf r = second := by
    rw [ttlOf, if_pos zero]
  refine ⟨{ fresh k now (ttlOf r) with withdrawn := r.ttl == 0 }, ?_, ⟨rfl, rfl, ?_, ?_⟩, rfl⟩
  · simp [hears, h, hear, fresh]
  · simp [fresh, hlease]
  · simp [zero]

/-! ### A packet -/

theorem withdrawn_concat (a : List Record) (r : Record) (before : Option Peer) :
    Withdrawn me packet k (a ++ [r]) before ↔
      Withdrawn me packet k a before ∨ ∃ t, told me packet r = some t ∧ t.Withdraws k := by
  unfold Withdrawn
  constructor
  · intro hcase
    rcases hcase with hbefore | ⟨x, hx, t, ht, hw⟩
    · exact Or.inl (Or.inl hbefore)
    · rcases List.mem_append.mp hx with hx | hx
      · exact Or.inl (Or.inr ⟨x, hx, t, ht, hw⟩)
      · rw [List.mem_singleton.mp hx] at ht
        exact Or.inr ⟨t, ht, hw⟩
  · intro hcase
    rcases hcase with (hbefore | ⟨x, hx, t, ht, hw⟩) | ⟨t, ht, hw⟩
    · exact Or.inl hbefore
    · exact Or.inr ⟨x, List.mem_append_left _ hx, t, ht, hw⟩
    · exact Or.inr ⟨r, List.mem_append_right _ List.mem_cons_self, t, ht, hw⟩

theorem reached_concat (a : List Record) (r : Record) (p : Peer) :
    Reached me packet k (a ++ [r]) p ↔
      Reached me packet k a p ∨ ∃ t, told me packet r = some t ∧ t.Reaches k p.host := by
  unfold Reached
  constructor
  · intro hany
    obtain ⟨x, hx, t, ht, hreach⟩ := hany
    rcases List.mem_append.mp hx with hx | hx
    · exact Or.inl ⟨x, hx, t, ht, hreach⟩
    · rw [List.mem_singleton.mp hx] at ht
      exact Or.inr ⟨t, ht, hreach⟩
  · intro hcase
    rcases hcase with ⟨x, hx, t, ht, hreach⟩ | ⟨t, ht, hreach⟩
    · exact ⟨x, List.mem_append_left _ hx, t, ht, hreach⟩
    · exact ⟨r, List.mem_append_right _ List.mem_cons_self, t, ht, hreach⟩

/-- Until something reaches it an entry is withdrawn if it was. -/
theorem withdrawn_of_unreached {a : List Record} {p : Peer} (h : ¬ Reached me packet k a p) :
    Withdrawn me packet k a (some p) ↔ p.withdrawn := by
  constructor
  · intro hcase
    rcases hcase with ⟨q, hq, hw⟩ | ⟨x, hx, t, ht, hw⟩
    · cases hq
      exact hw
    · exact absurd ⟨x, hx, t, ht, hw.reaches p.host⟩ h
  · intro hw
    exact Or.inl ⟨p, rfl, hw⟩

/-- What has become of the entry after some records: it is as it was, or the goodbye has
reached it. -/
structure Fate (me : Own) (packet : Bytes) (now : Nat) (k : Text) (all a : List Record)
    (before : Option Peer) (q : Peer) : Prop where
  host : q.host = [] ∨ IsHost me packet k all before q.host
  became : (before = some q ∧ ¬ Reached me packet k a q) ∨
    Bidden now (Withdrawn me packet k a before) q ∧
      ∀ p, before = some p → Reached me packet k a p

theorem Bidden.congr {w w' : Prop} {q : Peer} (h : Bidden now w q) (hw : w ↔ w') :
    Bidden now w' q :=
  ⟨h.lastSeen, h.unanswered, h.expiresAt, h.withdrawn_iff.trans hw⟩

/-- One record more, for an entry that it reaches. -/
theorem Fate.reached {all a : List Record} {before : Option Peer} {q q' : Peer} {r : Record}
    {t : Told Ipv6Addr} (h : Fate me packet now k all a before q) (hr : r ∈ all)
    (ht : told me packet r = some t) (hreach : t.Reaches k q.host)
    (bidden : Bidden now (q.withdrawn ∨ t.Withdraws k) q')
    (hhost : q'.host = q.host ∨ ∃ port, t = .served k port q'.host) :
    Fate me packet now k all (a ++ [r]) before q' where
  host := by
    rcases hhost with hsame | ⟨port, hserved⟩
    · rw [hsame]
      exact h.host
    · rw [hserved] at ht
      exact Or.inr (Or.inr ⟨r, hr, port, ht⟩)
  became := by
    have hlast : (∃ t', told me packet r = some t' ∧ t'.Withdraws k) ↔ t.Withdraws k := by
      rw [ht]
      simp
    refine Or.inr ⟨?_, ?_⟩
    · apply bidden.congr
      rw [withdrawn_concat, hlast]
      rcases h.became with ⟨hbefore, unreached⟩ | ⟨already, -⟩
      · rw [hbefore, withdrawn_of_unreached unreached]
      · rw [already.withdrawn_iff]
    · intro p hp
      rw [reached_concat]
      rcases h.became with ⟨hbefore, -⟩ | ⟨-, hreached⟩
      · rw [hbefore] at hp
        cases hp
        exact Or.inr ⟨t, ht, hreach⟩
      · exact Or.inl (hreached p hp)

/-- One record more, for an entry that it does not reach. -/
theorem Fate.unreached {all a : List Record} {before : Option Peer} {q : Peer} {r : Record}
    (h : Fate me packet now k all a before q)
    (unreached : ∀ t, told me packet r = some t → ¬ t.Reaches k q.host) :
    Fate me packet now k all (a ++ [r]) before q where
  host := h.host
  became := by
    rcases h.became with ⟨hbefore, before_unreached⟩ | ⟨already, hreached⟩
    · refine Or.inl ⟨hbefore, ?_⟩
      rw [reached_concat]
      intro hcase
      rcases hcase with hreach | ⟨t, ht, hreach⟩
      · exact before_unreached hreach
      · exact unreached t ht hreach
    · refine Or.inr ⟨?_, ?_⟩
      · apply already.congr
        rw [withdrawn_concat]
        constructor
        · exact Or.inl
        · intro hcase
          rcases hcase with hw | ⟨t, ht, hw⟩
          · exact hw
          · exact absurd (hw.reaches q.host) (unreached t ht)
      · intro p hp
        rw [reached_concat]
        exact Or.inl (hreached p hp)

/-- An entry that a pointer opens. -/
theorem Fate.opened {all a : List Record} {before : Option Peer} {q : Peer} {r : Record}
    (ht : told me packet r = some (.found k)) (bidden : Bidden now True q) (hhost : q.host = []) :
    Fate me packet now k all (a ++ [r]) before q where
  host := Or.inl hhost
  became := by
    refine Or.inr ⟨?_, ?_⟩
    · apply bidden.congr
      rw [withdrawn_concat]
      simp only [true_iff]
      exact Or.inr ⟨.found k, ht, rfl⟩
    · intro p _
      rw [reached_concat]
      exact Or.inr ⟨.found k, ht, rfl⟩

/-- **What a goodbye leaves of an entry.** -/
theorem foldl_fate {all : List Record} {before : Option Peer}
    (goodbye : Goodbye me packet k all before) {a : List Record} (ha : ∀ r ∈ a, r ∈ all) {q : Peer}
    (hq : a.foldl (hears me packet now k) before = some q) :
    Fate me packet now k all a before q := by
  induction a using List.reverseRecOn generalizing q with
  | nil =>
      refine ⟨Or.inr (Or.inl ⟨q, hq, rfl⟩), Or.inl ⟨hq, ?_⟩⟩
      intro hany
      obtain ⟨r, hr, -⟩ := hany
      cases hr
  | append_singleton a r ih =>
      have hall : ∀ x ∈ a, x ∈ all := fun x hx => ha x (List.mem_append_left _ hx)
      have hr : r ∈ all := ha r (List.mem_append_right _ List.mem_cons_self)
      rw [List.foldl_append, List.foldl_cons, List.foldl_nil] at hq
      cases hentry : a.foldl (hears me packet now k) before with
      | none =>
          rw [hentry] at hq
          by_cases ht : told me packet r = some (.found k)
          · have zero : r.ttl = 0 := goodbye r hr _ ht rfl
            obtain ⟨q', hq', bidden, hhost⟩ := hears_found now ht zero
            rw [hq'] at hq
            cases hq
            exact Fate.opened ht bidden hhost
          · rw [hears_absent ht] at hq
            cases hq
      | some p =>
          have hp := ih hall hentry
          rw [hentry] at hq
          by_cases own : GivesOwn me packet (some p.host) r
          · rw [hears_own own] at hq
            cases hq
          by_cases reached : ∃ t, told me packet r = some t ∧ t.Reaches k p.host
          · obtain ⟨t, ht, hreach⟩ := reached
            have zero : r.ttl = 0 := goodbye r hr t ht (hreach.concerns hp.host)
            obtain ⟨q', hq', bidden, hhost⟩ := hears_reached now ht hreach own zero
            rw [hq'] at hq
            cases hq
            exact hp.reached hr ht hreach bidden hhost
          · have unreached : ∀ t, told me packet r = some t → ¬ t.Reaches k p.host :=
              fun t ht hreach => reached ⟨t, ht, hreach⟩
            rw [hears_unreached unreached own] at hq
            cases hq
            exact hp.unreached unreached

variable (now) in
theorem hostThen_eq (a : List Record) (before : Option Peer) :
    hostThen me packet k a before =
      (a.foldl (hears me packet now k) before).map Peer.host := by
  rw [hostThen, ← foldl_hears_listed me packet now k, Option.map_map]
  rfl

theorem takenOff_concat (a : List Record) (r : Record) (before : Option Peer) :
    TakenOff me packet k (a ++ [r]) before ↔
      TakenOff me packet k a before ∧ told me packet r ≠ some (.found k) ∨
        GivesOwn me packet (hostThen me packet k a before) r := by
  constructor
  · intro hany
    obtain ⟨earlier, x, later, hsplit, own, closed⟩ := hany
    rcases List.eq_nil_or_concat later with rfl | ⟨later, y, rfl⟩
    · obtain ⟨rfl, hx⟩ := List.append_inj' hsplit rfl
      cases hx
      exact Or.inr own
    · have hsplit' : a ++ [r] = (earlier ++ x :: later) ++ [y] := by
        rw [hsplit]
        simp
      obtain ⟨rfl, hy⟩ := List.append_inj' hsplit' rfl
      cases hy
      refine Or.inl ⟨⟨earlier, x, later, rfl, own, ?_⟩, ?_⟩
      · intro z hz
        exact closed z (by simp [hz])
      · exact closed r (by simp)
  · intro hcase
    rcases hcase with ⟨⟨earlier, x, later, rfl, own, closed⟩, hr⟩ | own
    · refine ⟨earlier, x, later ++ [r], by simp, own, ?_⟩
      intro z hz
      rcases List.mem_append.mp hz with hz | hz
      · exact closed z hz
      · rw [List.mem_singleton.mp hz]
        exact hr
    · refine ⟨a, r, [], rfl, own, ?_⟩
      intro z hz
      cases hz

variable (now) in
/-- **When there is no entry** after a goodbye: it was taken for our own, or there was none. -/
theorem foldl_none_iff {all : List Record} {before : Option Peer}
    (goodbye : Goodbye me packet k all before) {a : List Record} (ha : ∀ r ∈ a, r ∈ all) :
    a.foldl (hears me packet now k) before = none ↔
      TakenOff me packet k a before ∨
        before = none ∧ ∀ r ∈ a, told me packet r ≠ some (.found k) := by
  induction a using List.reverseRecOn with
  | nil => simp [TakenOff]
  | append_singleton a r ih =>
      have hall : ∀ x ∈ a, x ∈ all := fun x hx => ha x (List.mem_append_left _ hx)
      have hr : r ∈ all := ha r (List.mem_append_right _ List.mem_cons_self)
      have hnone := ih hall
      rw [List.foldl_append, List.foldl_cons, List.foldl_nil, takenOff_concat,
        hostThen_eq now]
      have hlast : (∀ x ∈ a ++ [r], told me packet x ≠ some (.found k)) ↔
          (∀ x ∈ a, told me packet x ≠ some (.found k)) ∧
            told me packet r ≠ some (.found k) := by
        simp [or_imp, forall_and]
      rw [hlast]
      cases hentry : a.foldl (hears me packet now k) before with
      | none =>
          have notOwn : ¬ GivesOwn me packet none r := by
            intro hany
            obtain ⟨host, addr, -, -, hhost⟩ := hany
            cases hhost
          by_cases ht : told me packet r = some (.found k)
          · obtain ⟨q, hq, -⟩ := hears_found now ht (goodbye r hr _ ht rfl)
            simp [hq, ht, notOwn]
          · have hbefore := hnone.mp hentry
            simp only [hears_absent ht, ne_eq, ht, not_false_eq_true, and_true, Option.map_none,
              notOwn, or_false, true_iff]
            exact hbefore
      | some p =>
          have hsome : ¬ (TakenOff me packet k a before ∨
              before = none ∧ ∀ r ∈ a, told me packet r ≠ some (.found k)) := by
            rw [← hnone, hentry]
            simp
          by_cases own : GivesOwn me packet (some p.host) r
          · simp [hears_own own, own]
          · have hstays : hears me packet now k (some p) r ≠ none := by
              by_cases reached : ∃ t, told me packet r = some t ∧ t.Reaches k p.host
              · obtain ⟨t, ht, hreach⟩ := reached
                have hhost := (foldl_fate goodbye hall hentry).host
                have zero : r.ttl = 0 := goodbye r hr t ht (hreach.concerns hhost)
                obtain ⟨q, hq, -⟩ := hears_reached now ht hreach own zero
                rw [hq]
                simp
              · rw [hears_unreached (fun t ht hreach => reached ⟨t, ht, hreach⟩) own]
                simp
            constructor
            · intro hgone
              exact absurd hgone hstays
            · intro hcase
              rcases hcase with (⟨htaken, -⟩ | hown) | ⟨hbefore, hclosed, -⟩
              · exact absurd (Or.inl htaken) hsome
              · exact absurd hown own
              · exact absurd (Or.inr ⟨hbefore, hclosed⟩) hsome

/-- **A goodbye and one entry on AWDL.** -/
theorem noLonger_iff (me : Own) (packet : Bytes) (g : Gate) (minGrace now : Nat)
    (records : List Record) (peers : HashMap Text Peer) (k : Text)
    (goodbye : Goodbye me packet k records (peers.lookup k)) :
    NoLonger g minGrace now (peers.lookup k) ((absorb me packet now records peers).lookup k) ↔
      TakenOff me packet k records (peers.lookup k) ∨
        Unmoved me packet g minGrace now k records (peers.lookup k) := by
  rw [absorb_lookup]
  generalize peers.lookup k = before at goodbye ⊢
  have hnone := foldl_none_iff now goodbye (a := records) fun r hr => hr
  cases hentry : records.foldl (hears me packet now k) before with
  | none =>
      have hgone := hnone.mp hentry
      constructor
      · intro _
        rcases hgone with htaken | ⟨rfl, hclosed⟩
        · exact Or.inl htaken
        · exact Or.inr hclosed
      · intro _ p' hp'
        cases hp'
  | some q =>
      have hfate := foldl_fate goodbye (fun r hr => hr) hentry
      have hnot : ¬ (TakenOff me packet k records before ∨
          before = none ∧ ∀ r ∈ records, told me packet r ≠ some (.found k)) := by
        rw [← hnone, hentry]
        simp
      cases before with
      | none =>
          constructor
          · intro h
            obtain ⟨p, hp, -⟩ := h q rfl
            cases hp
          · intro hcase
            rcases hcase with htaken | hclosed
            · exact absurd (Or.inl htaken) hnot
            · exact absurd (Or.inr ⟨rfl, hclosed⟩) hnot
      | some p =>
          rcases hfate.became with ⟨hsame, unreached⟩ | ⟨bidden, hreached⟩
          · cases hsame
            constructor
            · intro _
              exact Or.inr (Or.inl unreached)
            · intro _ p' hp'
              exact ⟨p', hp', fun _ _ hkept => hkept⟩
          · constructor
            · intro h
              obtain ⟨p₀, hp₀, hkeeps⟩ := h q rfl
              cases hp₀
              refine Or.inr (Or.inr ?_)
              intro later hlater granted
              exact hkeeps later hlater ((bidden.keeps_iff g minGrace hlater).mpr granted)
            · intro hcase
              rcases hcase with htaken | hunreached | hlong
              · exact absurd (Or.inl htaken) hnot
              · exact absurd (hreached p rfl) hunreached
              · intro p' hp'
                cases hp'
                refine ⟨p, rfl, ?_⟩
                intro later hlater hkept
                exact hlong later hlater ((bidden.keeps_iff g minGrace hlater).mp hkept)

/-! ## Both -/

/-- **A goodbye is a goodbye** exactly where the packet does not reach the entry, or grants it
no more than it had: for an entry on the LAN, whenever it was last seen, and one on AWDL. -/
theorem goodbye_iff (me : Own) (packet : Bytes) (g : Gate) (minGrace now : Nat)
    (records : List Record) (lan : HashMap Text Quickshare.QsPeer) (peers : HashMap Text Peer)
    (k : Text) (goodbye : Goodbye me packet k records (peers.lookup k)) :
    (Quickshare.QsBrowser.NoLonger now (lan.lookup k)
        ((Quickshare.QsBrowser.absorb packet now records lan).lookup k) ↔
      Quickshare.QsBrowser.Unmoved packet now k records (lan.lookup k)) ∧
    (NoLonger g minGrace now (peers.lookup k) ((absorb me packet now records peers).lookup k) ↔
      TakenOff me packet k records (peers.lookup k) ∨
        Unmoved me packet g minGrace now k records (peers.lookup k)) :=
  ⟨Quickshare.QsBrowser.noLonger_iff packet now records lan k,
    noLonger_iff me packet g minGrace now records peers k goodbye⟩

/-! ### A phone that leaves -/

def lanResponder : Quickshare.QsResponder :=
  Quickshare.QsResponder.named "Pixel".toList phoneId phoneMetadata phoneAddr 40985

def awdlGoodbye : Bytes :=
  Announced.packet (awdlPhone.map fun x => { x with ttl := 0 })

def goodbyeRecords : List Record :=
  (parse awdlGoodbye).elim [] fun msg => msg.records

theorem goodbyeRecords_zero : ∀ r ∈ goodbyeRecords, r.ttl = 0 := by
  decide +kernel

def openGate : Gate where
  probeEviction := true
  evictionSince := some 0

theorem goodbye_awdlPhone :
    Goodbye someone awdlGoodbye awdlInst.text goodbyeRecords none ∧
    ((Quickshare.QsBrowser.NoLonger 0 none
        ((Quickshare.QsBrowser.absorb awdlGoodbye 0 goodbyeRecords ∅).lookup awdlInst.text) ↔
      Quickshare.QsBrowser.Unmoved awdlGoodbye 0 awdlInst.text goodbyeRecords none) ∧
    (NoLonger openGate (45 * second) 0 none
        ((absorb someone awdlGoodbye 0 goodbyeRecords ∅).lookup awdlInst.text) ↔
      TakenOff someone awdlGoodbye awdlInst.text goodbyeRecords none ∨
        Unmoved someone awdlGoodbye openGate (45 * second) 0 awdlInst.text goodbyeRecords
          none)) := by
  have goodbye : Goodbye someone awdlGoodbye awdlInst.text goodbyeRecords none :=
    fun r hr _ _ _ => goodbyeRecords_zero r hr
  exact ⟨goodbye, goodbye_iff someone awdlGoodbye openGate (45 * second) 0 goodbyeRecords ∅ ∅
    awdlInst.text goodbye⟩

/-- To a browser that knew nobody the goodbye is a discovery, on both links.  On the LAN it
keeps a peer seen at 0 s, due at 60 s, beyond 80 s; on AWDL, where it comes three times, the
second keeps a peer due at 1 s until 1.1 s. -/
theorem goodbye_opens_and_extends :
    let inst := (Quickshare.QsResponder.instName phoneId).text
    let announced := Quickshare.QsBrowser.receive (response lanResponder.answers) 0 ∅
    let bidden := Quickshare.QsBrowser.receive lanResponder.goodbye (44 * second) announced
    let once := receive someone awdlGoodbye 0 ∅
    let twice := receive someone awdlGoodbye 100000000 once
    ((parse lanResponder.goodbye).any fun msg => msg.records.all fun r => r.ttl == 0) ∧
    ((Quickshare.QsBrowser.receive lanResponder.goodbye 0 ∅).lookup inst).isSome ∧
    (announced.lookup inst).any (Quickshare.QsBrowser.keeps (60 * second) (80 * second)) = false ∧
    (bidden.lookup inst).any (Quickshare.QsBrowser.keeps (60 * second) (80 * second)) ∧
    (once.lookup awdlInst.text).isSome ∧
    (once.lookup awdlInst.text).any (keeps openGate (45 * second) 1050000000) = false ∧
    (twice.lookup awdlInst.text).any (keeps openGate (45 * second) 1050000000) := by
  refine ⟨?_, ?_, ?_, ?_, ?_, ?_, ?_⟩
  · decide +kernel
  · decide +kernel
  · decide +kernel
  · decide +kernel
  · decide +kernel
  · decide +kernel
  · decide +kernel

end Sharingd.Mdns.Browser
