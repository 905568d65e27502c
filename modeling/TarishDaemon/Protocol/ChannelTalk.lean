import TarishDaemon.Lib.Run
import TarishDaemon.Protocol.SecureMessage
import Mathlib.Logic.Function.Basic

/-!
# What gets through the secure channel

Two channels hold the same keys, one as client and one as server, and everything
between them belongs to somebody else: any bytes may be delivered to either end
at any time, in any order and any number of times.  Two things are taken from the
primitives.  Decryption undoes encryption, and a tag that verifies under a traffic
key is on something an end has signed with it (`Unforged`).  The HMAC keys of the
two directions differ, or an end would believe its own frames.

A call of `encrypt` uses up a number even when it fails.  The numbers are 32 bits
and wrap, so what an end accepts next is only determined for fewer than 2³² calls
in a direction; `next_number` is where that is used.
-/

namespace Protocol

open Rust Protobuf SecureMessage

/-- The two ends, and what has gone through each. -/
structure Link where
  channel : Role → SecureChannel
  /-- How often each end has called `encrypt`. -/
  calls : Role → Nat := fun _ => 0
  /-- The calls that succeeded, with their payloads. -/
  sent : Role → List (Nat × Bytes) := fun _ => []
  decrypted : Role → List Bytes := fun _ => []
  /-- What was signed, and with which key. -/
  signed : List (Bytes × Bytes) := []

namespace Link

inductive Act
  | encrypt (role : Role) (iv : Option Bytes) (payload : Bytes)
  | deliver (role : Role) (wire : Bytes)
  deriving DecidableEq, Repr

def start (keys : SessionKeys) : Link where
  channel role := { keys := keys, role := role }

/-- The payloads an end has encrypted, in order. -/
def encrypted (s : Link) (role : Role) : List Bytes :=
  (s.sent role).map Prod.snd

variable (c : Crypto)

/-- What a call of `encrypt` signs. -/
def signs (ch : SecureChannel) (iv : Option Bytes) (payload : Bytes) : List (Bytes × Bytes) :=
  match iv with
  | none => []
  | some iv =>
      match headerAndBody c (ch.keys.send ch.role).1 (nextSeq ch.sendSeq) payload iv with
      | .ok hb => [((ch.keys.send ch.role).2, hb)]
      | .error _ => []

def step (s : Link) : Act → Link
  | .encrypt role iv payload =>
      let before := s.channel role
      let (result, ch) := before.encrypt c iv payload
      let number := s.calls role + 1
      let s := { s with
        channel := Function.update s.channel role ch
        calls := Function.update s.calls role number }
      match result with
      | .ok _ =>
          { s with
            sent := Function.update s.sent role (s.sent role ++ [(number, payload)])
            signed := s.signed ++ signs c before iv payload }
      | .error _ => s
  | .deliver role wire =>
      let (result, ch) := (s.channel role).decrypt c wire
      let s := { s with channel := Function.update s.channel role ch }
      match result with
      | .ok payload =>
          { s with
            decrypted := Function.update s.decrypted role (s.decrypted role ++ [payload]) }
      | .error _ => s

/-- No allocation is longer. -/
def InMemory (b : Bytes) : Prop := b.length < 2 ^ 63

/-- A tag that verifies under the key of this direction is on something that was
signed with that key. -/
def Unforged (s : Link) (role : Role) (wire : Bytes) : Prop :=
  ∀ hb signature, firstBytes wire smHeaderAndBody = .ok (some hb) →
    firstBytes wire smSignature = .ok (some signature) →
    c.hmac ((s.channel role).keys.recv role).2 hb = some signature →
    (((s.channel role).keys.recv role).2, hb) ∈ s.signed

/-- Fewer than 2³² calls in each direction, what is built is in memory, and what
is delivered is not a forgery. -/
def Allowed (s : Link) : Act → Prop
  | .encrypt role iv payload =>
      s.calls role + 1 < 2 ^ 32 ∧
        InMemory (d2dBytes (nextSeq (s.channel role).sendSeq) payload) ∧
        ∀ wire, ((s.channel role).encrypt c iv payload).1 = .ok wire → InMemory wire
  | .deliver role wire => Unforged c s role wire

/-- What is taken from the primitives, for the keys of one session. -/
structure Trusted (nextSecret : Bytes) : Prop where
  inverse : ∀ key iv plain body, c.encrypt key iv plain = some body →
    c.decrypt key iv body = some plain
  apart : ∀ keys, D2d.sessionKeys c nextSecret = some keys → keys.clientHmac ≠ keys.serverHmac

/-! ## The invariant -/

/-- The sequence number of call `n`. -/
def seqOf (n : Nat) : Int := Int.bmod n (2 ^ 32)

/-- What was signed is what some end sealed in one of its calls. -/
def SealedBy (keys : SessionKeys) (s : Link) (key hb : Bytes) : Prop :=
  ∃ role n payload iv, key = (keys.send role).2 ∧ (n, payload) ∈ s.sent role ∧
    headerAndBody c (keys.send role).1 (seqOf n) payload iv = .ok hb ∧
    InMemory (d2dBytes (seqOf n) payload) ∧ InMemory hb

structure Intact (keys : SessionKeys) (s : Link) : Prop where
  keys_eq : ∀ role, (s.channel role).keys = keys
  role_eq : ∀ role, (s.channel role).role = role
  sendSeq : ∀ role, (s.channel role).sendSeq = seqOf (s.calls role)
  recvSeq : ∀ role, (s.channel role).recvSeq = seqOf (s.decrypted role).length
  few : ∀ role, s.calls role < 2 ^ 32
  increasing : ∀ role, (s.sent role).Pairwise fun a b => a.1 < b.1
  numbered : ∀ role, ∀ f ∈ s.sent role, 0 < f.1 ∧ f.1 ≤ s.calls role
  sealed : ∀ key hb, (key, hb) ∈ s.signed → SealedBy c keys s key hb
  /-- The calls whose payloads got through are the first ones, one by one. -/
  inOrder : ∀ role, ∀ i p, (s.decrypted role)[i]? = some p →
    (s.sent role.peer)[i]? = some (i + 1, p)

variable {c} {keys : SessionKeys} {s : Link}

theorem seqOf_zero : seqOf 0 = 0 := by
  unfold seqOf
  rw [Int.bmod_def]
  split <;> omega

theorem intact_start (keys : SessionKeys) : Intact c keys (start keys) := by
  refine ⟨fun _ => rfl, fun _ => rfl, fun _ => seqOf_zero.symm, fun _ => seqOf_zero.symm,
    fun _ => ?_, ?_, ?_, ?_, ?_⟩
  · show 0 < 2 ^ 32
    decide
  all_goals simp [start]

theorem nextSeq_seqOf (n : Nat) : nextSeq (seqOf n) = seqOf (n + 1) := by
  unfold nextSeq seqOf
  rw [Int.bmod_add_bmod]
  norm_cast

theorem seqOf_range (n : Nat) : -2 ^ 31 ≤ seqOf n ∧ seqOf n < 2 ^ 31 := by
  unfold seqOf
  rw [Int.bmod_def]
  split <;> omega

/-- Fewer than 2³² calls: a number that fits the next place is the next number. -/
theorem next_number {n k : Nat} (hpos : 0 < n) (hn : n < 2 ^ 32) (hk : k < 2 ^ 32)
    (h : seqOf n = seqOf (k + 1)) : n = k + 1 := by
  unfold seqOf at h
  rw [Int.bmod_def, Int.bmod_def] at h
  split at h <;> split at h <;> omega

/-- In an increasing list of positive numbers the one at place `j` is above `j`. -/
theorem lt_of_increasing {l : List (Nat × Bytes)} (hinc : l.Pairwise fun a b => a.1 < b.1)
    (hpos : ∀ f ∈ l, 0 < f.1) {j : Nat} {f : Nat × Bytes} (h : l[j]? = some f) : j < f.1 := by
  induction j generalizing f with
  | zero => exact hpos f (List.mem_of_getElem? h)
  | succ j ih =>
      obtain ⟨hlt, hf⟩ := List.getElem?_eq_some_iff.mp h
      have hbefore := ih (List.getElem?_eq_getElem (Nat.lt_of_succ_lt hlt))
      have := List.pairwise_iff_getElem.mp hinc j (j + 1) (Nat.lt_of_succ_lt hlt) hlt (by omega)
      rw [hf] at this
      omega

theorem SealedBy.mono {s' : Link} {key hb : Bytes} (h : SealedBy c keys s key hb)
    (hsent : ∀ role, ∀ f ∈ s.sent role, f ∈ s'.sent role) : SealedBy c keys s' key hb := by
  obtain ⟨role, n, payload, iv, hkey, hmem, hhb, hplain, hsealed⟩ := h
  exact ⟨role, n, payload, iv, hkey, hsent role _ hmem, hhb, hplain, hsealed⟩

/-- The two directions' keys differ, so a key says who signs with it. -/
theorem send_inj (apart : keys.clientHmac ≠ keys.serverHmac) {a b : Role}
    (h : (keys.send a).2 = (keys.send b).2) : a = b := by
  cases a <;> cases b
  · rfl
  · exact absurd h apart
  · exact absurd h.symm apart
  · rfl

/-- A call of `encrypt` that fails has only used up its number. -/
theorem Intact.count (intact : Intact c keys s) (role : Role) (few : s.calls role + 1 < 2 ^ 32) :
    Intact c keys { s with
      channel := Function.update s.channel role
        { s.channel role with sendSeq := nextSeq (s.channel role).sendSeq }
      calls := Function.update s.calls role (s.calls role + 1) } := by
  have hcalls : ∀ r, s.calls r ≤ Function.update s.calls role (s.calls role + 1) r := by
    intro r
    by_cases hr : r = role
    · subst hr
      simp
    · simp [Function.update, hr]
  refine ⟨?_, ?_, ?_, ?_, ?_, intact.increasing, ?_, ?_, intact.inOrder⟩
  · apply (Function.forall_update_iff s.channel fun _ ch => ch.keys = keys).mpr
    exact ⟨intact.keys_eq role, fun r _ => intact.keys_eq r⟩
  · apply (Function.forall_update_iff s.channel fun r ch => ch.role = r).mpr
    exact ⟨intact.role_eq role, fun r _ => intact.role_eq r⟩
  · intro r
    by_cases hr : r = role
    · subst hr
      simp [intact.sendSeq r, nextSeq_seqOf]
    · simpa [Function.update, hr] using intact.sendSeq r
  · apply (Function.forall_update_iff s.channel
      fun r ch => ch.recvSeq = seqOf (s.decrypted r).length).mpr
    exact ⟨intact.recvSeq role, fun r _ => intact.recvSeq r⟩
  · apply (Function.forall_update_iff s.calls fun _ n => n < 2 ^ 32).mpr
    exact ⟨few, fun r _ => intact.few r⟩
  · intro r f hf
    obtain ⟨hpos, hle⟩ := intact.numbered r f hf
    exact ⟨hpos, le_trans hle (hcalls r)⟩
  · intro key hb hmem
    exact (intact.sealed key hb hmem).mono fun _ _ h => h

/-- The call with the last number succeeds. -/
theorem Intact.send (intact : Intact c keys s) (role : Role) (payload : Bytes)
    (more : List (Bytes × Bytes)) (hfresh : ∀ f ∈ s.sent role, f.1 < s.calls role)
    (hpos : 0 < s.calls role)
    (hmore : ∀ key hb, (key, hb) ∈ more → ∃ iv, key = (keys.send role).2 ∧
      headerAndBody c (keys.send role).1 (seqOf (s.calls role)) payload iv = .ok hb ∧
      InMemory (d2dBytes (seqOf (s.calls role)) payload) ∧ InMemory hb) :
    Intact c keys { s with
      sent := Function.update s.sent role (s.sent role ++ [(s.calls role, payload)])
      signed := s.signed ++ more } := by
  have hgrows : ∀ r, ∀ f ∈ s.sent r,
      f ∈ Function.update s.sent role (s.sent role ++ [(s.calls role, payload)]) r := by
    intro r f hf
    by_cases hr : r = role
    · subst hr
      simp [hf]
    · simpa [Function.update, hr] using hf
  refine ⟨intact.keys_eq, intact.role_eq, intact.sendSeq, intact.recvSeq, intact.few, ?_, ?_, ?_,
    ?_⟩
  · intro r
    by_cases hr : r = role
    · subst hr
      simp only [Function.update_self]
      refine List.pairwise_append.mpr ⟨intact.increasing r, by simp, ?_⟩
      intro a ha b hb
      rw [List.mem_singleton.mp hb]
      exact hfresh a ha
    · simpa [Function.update, hr] using intact.increasing r
  · intro r f hf
    by_cases hr : r = role
    · subst hr
      simp only [Function.update_self] at hf
      rcases List.mem_append.mp hf with hold | hnew
      · exact intact.numbered r f hold
      · rw [List.mem_singleton.mp hnew]
        exact ⟨hpos, Nat.le_refl _⟩
    · exact intact.numbered r f (by simpa [Function.update, hr] using hf)
  · intro key hb hmem
    rcases List.mem_append.mp hmem with hold | hnew
    · exact (intact.sealed key hb hold).mono hgrows
    · obtain ⟨iv, hkey, hhb, hplain, hsealed⟩ := hmore key hb hnew
      exact ⟨role, s.calls role, payload, iv, hkey, by simp, hhb, hplain, hsealed⟩
  · intro r i p hp
    have hold := intact.inOrder r i p hp
    by_cases hr : r.peer = role
    · subst hr
      simp only [Function.update_self]
      rw [List.getElem?_append_left (List.getElem?_eq_some_iff.mp hold).1]
      exact hold
    · simpa [Function.update, hr] using hold

/-- An end calls `encrypt`. -/
theorem Intact.encrypt (intact : Intact c keys s) {role : Role} {iv : Option Bytes}
    {payload : Bytes} (allowed : Allowed c s (.encrypt role iv payload)) :
    Intact c keys (s.step c (.encrypt role iv payload)) := by
  obtain ⟨few, hplain, hwire⟩ := allowed
  have counted := intact.count role few
  simp only [Link.step]
  cases hresult : (s.channel role).encrypt c iv payload with
  | mk result ch =>
      have hch : ch = { s.channel role with sendSeq := nextSeq (s.channel role).sendSeq } := by
        rw [← SecureChannel.encrypt_snd (c := c) (s.channel role) iv payload, hresult]
      subst hch
      cases result with
      | error e => exact counted
      | ok wire =>
          obtain ⟨vector, hb, signature, rfl, hhb, -, rfl⟩ :=
            SecureChannel.encrypt_ok (by rw [hresult])
          have hmem := hwire _ (by rw [hresult])
          have hlen : hb.length ≤ (encode [Field.bytes smHeaderAndBody hb,
              .bytes smSignature signature]).length := length_le_encode (n := smHeaderAndBody)
            (by simp)
          rw [intact.sendSeq role, nextSeq_seqOf] at hplain
          rw [intact.keys_eq role, intact.role_eq role, intact.sendSeq role, nextSeq_seqOf] at hhb
          have sentNow := counted.send role payload
            (signs c (s.channel role) (some vector) payload) ?_ ?_ ?_
          · simpa using sentNow
          · intro f hf
            have := (intact.numbered role f hf).2
            simp only [Function.update_self]
            omega
          · simp
          · intro key hb' hsigned
            simp only [signs, intact.keys_eq role, intact.role_eq role, intact.sendSeq role,
              nextSeq_seqOf, hhb, List.mem_singleton, Prod.mk.injEq] at hsigned
            obtain ⟨rfl, rfl⟩ := hsigned
            refine ⟨vector, rfl, by simpa using hhb, by simpa using hplain, ?_⟩
            exact lt_of_le_of_lt hlen hmem

/-- What an end accepts next can only be the other end's next frame. -/
theorem Intact.accepts (intact : Intact c keys s)
    (inverse : ∀ key iv plain body, c.encrypt key iv plain = some body →
      c.decrypt key iv body = some plain)
    (apart : keys.clientHmac ≠ keys.serverHmac) {role : Role} {wire payload : Bytes}
    (unforged : Unforged c s role wire)
    (h : verifyAndDecrypt c (keys.recv role).1 (keys.recv role).2 wire =
      .ok ⟨seqOf ((s.decrypted role).length + 1), payload⟩) :
    (s.sent role.peer)[(s.decrypted role).length]? =
      some ((s.decrypted role).length + 1, payload) := by
  obtain ⟨hb, signature, hfirst, hsecond, hmac, hopen⟩ := verifyAndDecrypt_ok c h
  have hsigned := unforged hb signature hfirst hsecond (by rw [intact.keys_eq role]; exact hmac)
  rw [intact.keys_eq role] at hsigned
  obtain ⟨r, n, p, iv, hkey, hmem, hhb, hplain, hsealed⟩ := intact.sealed _ _ hsigned
  -- it was signed with the other end's key, so by the other end
  rw [keys.recv_eq_send role] at hkey hopen
  obtain rfl := send_inj apart hkey
  obtain ⟨lo, hi⟩ := seqOf_range n
  unfold InMemory at hplain hsealed
  have hopened := openBody_headerAndBody c inverse lo hi (by omega) (by omega) hhb
  rw [hopen] at hopened
  obtain ⟨hseq, rfl⟩ : seqOf ((s.decrypted role).length + 1) = seqOf n ∧ payload = p := by
    simpa using hopened
  -- the number fits one call only
  have hdone : ∀ i, i < (s.decrypted role).length →
      ∃ q, (s.sent role.peer)[i]? = some (i + 1, q) := fun i hi =>
    ⟨_, intact.inOrder role i _ (List.getElem?_eq_getElem hi)⟩
  obtain ⟨hpos, hle⟩ := intact.numbered role.peer _ hmem
  have hfew := intact.few role.peer
  have hk : (s.decrypted role).length < 2 ^ 32 := by
    cases hlen : (s.decrypted role).length with
    | zero => omega
    | succ k =>
        obtain ⟨q, hq⟩ := hdone k (by omega)
        have := (intact.numbered role.peer _ (List.mem_of_getElem? hq)).2
        simp only at this
        omega
  have hn : n = (s.decrypted role).length + 1 := next_number hpos (by omega) hk hseq.symm
  -- and that call's place is the next one
  obtain ⟨j, hj⟩ := List.getElem?_of_mem hmem
  have hjn := lt_of_increasing (intact.increasing role.peer)
    (fun f hf => (intact.numbered role.peer f hf).1) hj
  simp only at hjn
  have hjk : j = (s.decrypted role).length := by
    by_contra hne
    obtain ⟨q, hq⟩ := hdone j (by omega)
    rw [hj] at hq
    have : n = j + 1 := by simpa using congrArg (Option.map Prod.fst) hq
    omega
  rw [← hjk, hj, hn, hjk]

/-- Something is delivered to an end. -/
theorem Intact.deliver (intact : Intact c keys s)
    (inverse : ∀ key iv plain body, c.encrypt key iv plain = some body →
      c.decrypt key iv body = some plain)
    (apart : keys.clientHmac ≠ keys.serverHmac) {role : Role} {wire : Bytes}
    (unforged : Unforged c s role wire) :
    Intact c keys (s.step c (.deliver role wire)) := by
  simp only [Link.step]
  rcases SecureChannel.decrypt_cases (c := c) (s.channel role) wire with
    ⟨e, h⟩ | ⟨payload, h, hverify⟩
  · rw [h]
    simpa using intact
  · rw [h]
    rw [intact.keys_eq role, intact.role_eq role, intact.recvSeq role, nextSeq_seqOf] at hverify
    have hnext := intact.accepts inverse apart unforged hverify
    refine ⟨?_, ?_, ?_, ?_, intact.few, intact.increasing, intact.numbered, ?_, ?_⟩
    · apply (Function.forall_update_iff s.channel fun _ ch => ch.keys = keys).mpr
      exact ⟨intact.keys_eq role, fun r _ => intact.keys_eq r⟩
    · apply (Function.forall_update_iff s.channel fun r ch => ch.role = r).mpr
      exact ⟨intact.role_eq role, fun r _ => intact.role_eq r⟩
    · apply (Function.forall_update_iff s.channel fun r ch => ch.sendSeq = seqOf (s.calls r)).mpr
      exact ⟨intact.sendSeq role, fun r _ => intact.sendSeq r⟩
    · intro r
      by_cases hr : r = role
      · subst hr
        simp [intact.recvSeq r, nextSeq_seqOf]
      · simpa [Function.update, hr] using intact.recvSeq r
    · intro key hb hmem
      exact (intact.sealed key hb hmem).mono fun _ _ h => h
    · intro r i p hp
      by_cases hr : r = role
      · subst hr
        simp only [Function.update_self] at hp
        by_cases hi : i < (s.decrypted r).length
        · rw [List.getElem?_append_left hi] at hp
          exact intact.inOrder r i p hp
        · have hlast : i = (s.decrypted r).length := by
            have := (List.getElem?_eq_some_iff.mp hp).1
            simp only [List.length_append, List.length_singleton] at this
            omega
          subst hlast
          have hp' : payload = p := by simpa using hp
          exact hp' ▸ hnext
      · exact intact.inOrder r i p (by simpa [Function.update, hr] using hp)

/-- **One step.** -/
theorem Intact.step (intact : Intact c keys s)
    (inverse : ∀ key iv plain body, c.encrypt key iv plain = some body →
      c.decrypt key iv body = some plain)
    (apart : keys.clientHmac ≠ keys.serverHmac) {a : Act} (allowed : Allowed c s a) :
    Intact c keys (s.step c a) := by
  cases a with
  | encrypt role iv payload => exact intact.encrypt allowed
  | deliver role wire => exact intact.deliver inverse apart allowed

/-- **Integrity.**  However the ends call `encrypt`, and whatever is delivered to
them, what an end has decrypted is a prefix of what the other end has
encrypted. -/
theorem decrypted_is_prefix (c : Crypto) {nextSecret : Bytes} (trusted : Trusted c nextSecret)
    {keys : SessionKeys} (hkeys : D2d.sessionKeys c nextSecret = some keys)
    {acts : List Act} {s : Link}
    (run : Lts.Run (Lts.Restrict (Lts.ofFun (Link.step c)) (Allowed c)) (start keys) acts s)
    (role : Role) : s.decrypted role <+: s.encrypted role.peer := by
  have intact : Intact c keys s := by
    refine run.invariant (Intact c keys) (intact_start keys) ?_
    intro s a s' intact h
    obtain ⟨rfl, allowed⟩ := h
    exact intact.step trusted.inverse (trusted.apart keys hkeys) allowed
  rw [List.prefix_iff_getElem?]
  intro i hi
  have hsent := intact.inOrder role i _ (List.getElem?_eq_getElem hi)
  simp [encrypted, hsent]

/-! ## One recorded session -/

/-- Calls of the primitives and what they returned. -/
structure Record where
  /-- Key, data and tag. -/
  tags : List (Bytes × Bytes × Bytes)
  /-- Key, initial vector, plaintext and body. -/
  bodies : List (Bytes × Bytes × Bytes × Bytes)

/-- The primitives as far as they are on record; any other call fails. -/
def Record.crypto (r : Record) : Crypto where
  hmac key data := (r.tags.find? fun t => t.1 = key ∧ t.2.1 = data).map fun t => t.2.2
  encrypt key iv plain :=
    (r.bodies.find? fun t => t.1 = key ∧ t.2.1 = iv ∧ t.2.2.1 = plain).map fun t => t.2.2.2
  decrypt key iv body :=
    (r.bodies.find? fun t => t.1 = key ∧ t.2.1 = iv ∧ t.2.2.2 = body).map fun t => t.2.2.1

theorem Record.inverse (r : Record)
    (h : ∀ t ∈ r.bodies, r.crypto.decrypt t.1 t.2.1 t.2.2.2 = some t.2.2.1)
    (key iv plain body : Bytes) (henc : r.crypto.encrypt key iv plain = some body) :
    r.crypto.decrypt key iv body = some plain := by
  obtain ⟨t, hfind, hbody⟩ := Option.map_eq_some_iff.mp henc
  have hhit : t.1 = key ∧ t.2.1 = iv ∧ t.2.2.1 = plain := by
    simpa using List.find?_some hfind
  obtain ⟨rfl, rfl, rfl⟩ := hhit
  exact hbody ▸ h t (List.mem_of_find?_eq_some hfind)

/-- A record in which no tag comes twice under one key does not mix up its data. -/
theorem Record.hmac_injective (r : Record)
    (h : ∀ t ∈ r.tags, ∀ u ∈ r.tags, t.1 = u.1 → t.2.2 = u.2.2 → t.2.1 = u.2.1)
    (key data data' tag : Bytes) (ht : r.crypto.hmac key data = some tag)
    (hu : r.crypto.hmac key data' = some tag) : data = data' := by
  obtain ⟨t, hfind, htag⟩ := Option.map_eq_some_iff.mp ht
  obtain ⟨u, hfind', htag'⟩ := Option.map_eq_some_iff.mp hu
  have hhit : t.1 = key ∧ t.2.1 = data := by simpa using List.find?_some hfind
  have hhit' : u.1 = key ∧ u.2.1 = data' := by simpa using List.find?_some hfind'
  have hsame := h t (List.mem_of_find?_eq_some hfind) u (List.mem_of_find?_eq_some hfind')
    (hhit.1.trans hhit'.1.symm) (htag.trans htag'.symm)
  exact hhit.2.symm.trans (hsame.trans hhit'.2)

theorem Record.hmac_length (r : Record) (h : ∀ t ∈ r.tags, t.2.2.length = 32)
    (key data tag : Bytes) (ht : r.crypto.hmac key data = some tag) : tag.length = 32 := by
  obtain ⟨t, hfind, rfl⟩ := Option.map_eq_some_iff.mp ht
  exact h t (List.mem_of_find?_eq_some hfind)

/-- `len` bytes of a number, the most significant first. -/
def bigEndian (len v : Nat) : Bytes :=
  (List.range len).reverse.map fun i => UInt8.ofNat (v / 256 ^ i % 256)

namespace Hello

def nextSecret : Bytes :=
  bigEndian 32 0xb0c16a7ef577fe20c638354db7ca5c97aa4953a75b2443223e854e2e5a081668

def prk : Bytes :=
  bigEndian 32 0xfa91b86c95e79b937ea14013f60279cace69fb219cac1257442cebc9e56dd9f0

def d2dClient : Bytes :=
  bigEndian 32 0xdc012fe41bf4d1414318282aee1ad92205fdde7cd20ebcc9c9249d5493b1e238

def d2dServer : Bytes :=
  bigEndian 32 0x21383b4fab61ada496d32cd72bd3bcde302653b569e5a874134249348a42f1d9

def prkClient : Bytes :=
  bigEndian 32 0x40dbd32e09aedd992bda3e155379d61da0dbd378ce33b8a23fb4fae6ec7a04f3

def prkServer : Bytes :=
  bigEndian 32 0x4a00ac762ed75130fb5c92755ecda3ed9e276ee308611c9e8d1927a8d5e2e6d7

def clientEncrypt : Bytes :=
  bigEndian 32 0x8270749c4000b76f74060f5417577ed7eef1798810beb0583e1fd35e7aa81ad4

def clientHmac : Bytes :=
  bigEndian 32 0x66324fd288e0aa496aa9265e0f5b46a1bb157889347a11ee767ba829d8745613

def serverEncrypt : Bytes :=
  bigEndian 32 0xfaf1c47ac8b37af412816c856681ed33c871345132a3c0252a8b1313e552912f

def serverHmac : Bytes :=
  bigEndian 32 0xf75d953f97063d53d52ba3b9093604da64fc7cde621dc65779acbaa81fe61d92

def vector : Bytes :=
  bigEndian 16 0x000102030405060708090a0b0c0d0e0f

def body : Bytes :=
  bigEndian 16 0xcb38ffdef81c06c617c1a8a08a4f0111

def tag : Bytes :=
  bigEndian 32 0x0e465502b81fa48ef100a3205ee45f45bbd2dd8d9000b2033f4286bff5a6c8fa

def hello : Bytes := asBytes ['h', 'e', 'l', 'l', 'o']

def sealedHello : Bytes :=
  bytes hbHeader (headerBytes vector) ++ bytes hbBody body

def record : Record where
  tags := [(D2d.d2dSalt, nextSecret, prk), (prk, D2d.infoClient ++ [1], d2dClient),
    (prk, D2d.infoServer ++ [1], d2dServer), (D2d.smSalt, d2dClient, prkClient),
    (prkClient, D2d.infoEncrypt ++ [1], clientEncrypt),
    (prkClient, D2d.infoHmac ++ [1], clientHmac), (D2d.smSalt, d2dServer, prkServer),
    (prkServer, D2d.infoEncrypt ++ [1], serverEncrypt),
    (prkServer, D2d.infoHmac ++ [1], serverHmac), (clientHmac, sealedHello, tag)]
  bodies := [(clientEncrypt, vector, d2dBytes 1 hello, body)]

def helloKeys : SessionKeys := { clientEncrypt, clientHmac, serverEncrypt, serverHmac }

def wire : Bytes :=
  bytes smHeaderAndBody sealedHello ++ bytes smSignature tag

theorem helloKeys_derived : D2d.sessionKeys record.crypto nextSecret = some helloKeys := by
  decide +kernel

theorem trusted : Trusted record.crypto nextSecret := by
  refine ⟨record.inverse (by decide +kernel), ?_⟩
  intro keys hkeys
  rw [helloKeys_derived] at hkeys
  cases hkeys
  decide +kernel

theorem encrypt_hello :
    ((start helloKeys).channel .client).encrypt record.crypto (some vector) hello =
      (.ok wire, { keys := helloKeys, role := .client, sendSeq := 1 }) := by
  decide +kernel

/-- The client has sent its frame. -/
def afterHello : Link :=
  (start helloKeys).step record.crypto (.encrypt .client (some vector) hello)

theorem unforged_hello : Unforged record.crypto afterHello .server wire := by
  intro hb signature hfirst _ _
  have hwire : firstBytes wire smHeaderAndBody = .ok (some sealedHello) := by decide +kernel
  rw [hwire] at hfirst
  cases hfirst
  decide +kernel

end Hello

/-- The client says hello, with the keys and the bytes that HMAC-SHA256 and
AES-256-CBC give, and the server hears it. -/
theorem hello_gets_through :
    ∃ s, Lts.Run (Lts.Restrict (Lts.ofFun (Link.step Hello.record.crypto))
        (Allowed Hello.record.crypto)) (start Hello.helloKeys)
        [.encrypt .client (some Hello.vector) Hello.hello, .deliver .server Hello.wire] s ∧
      s.decrypted .server = [Hello.hello] ∧
      s.decrypted .server <+: s.encrypted Role.server.peer := by
  have sends : Allowed Hello.record.crypto (start Hello.helloKeys)
      (.encrypt .client (some Hello.vector) Hello.hello) := by
    refine ⟨by decide, ?_, ?_⟩
    · unfold InMemory
      decide +kernel
    · intro wire hwire
      rw [Hello.encrypt_hello] at hwire
      cases hwire
      unfold InMemory
      decide +kernel
  have said : Lts.Run (Lts.Restrict (Lts.ofFun (Link.step Hello.record.crypto))
      (Allowed Hello.record.crypto)) (start Hello.helloKeys)
      [.encrypt .client (some Hello.vector) Hello.hello] Hello.afterHello :=
    Lts.Run.nil.snoc ⟨rfl, sends⟩
  have hears : Allowed Hello.record.crypto Hello.afterHello (.deliver .server Hello.wire) :=
    Hello.unforged_hello
  have run := said.snoc ⟨rfl, hears⟩
  refine ⟨_, run, by decide +kernel, ?_⟩
  exact decrypted_is_prefix Hello.record.crypto Hello.trusted Hello.helloKeys_derived run .server

end Link

end Protocol
