import TarishDaemon.Quickshare.ServeConsent
import TarishDaemon.Quickshare.ServeLog

/-!
# How often a client is told of an offer

For one question `serve` calls `onTransferOffered` of every client, and after that
`QsHost::ask` does so once more, unless the policy accepts by itself.  Both calls carry the
id of the connection.  A client may come or go between the two.

There is one question at most in a run of `serve`, so what a client hears is what that one
step makes it hear: `one_prompt_iff`.
-/

namespace Sharingd

open Rust Quickshare
open Protocol.Fsm Protocol.Sharing

/-- The clients of an offer.  The list of callbacks has nobody twice. -/
structure Listening (C : Type) where
  /-- Registered while `serve` announces the introduction. -/
  announced : List C
  /-- Registered while `QsHost::ask` goes through the list. -/
  asked : List C
  announced_nodup : announced.Nodup
  asked_nodup : asked.Nodup

/-- A call of `onTransferOffered`, and whether the offer is accepted without asking. -/
structure OfferCall (C : Type) where
  client : C
  transfer : Int
  auto : Bool
  deriving DecidableEq, Repr

/-- The receive loop, with the calls made so far. -/
structure Hearing (C : Type) where
  loop : Serve
  calls : List (OfferCall C) := []

variable {C : Type}

def offerCall (w : Serve) (e : Env) (client : C) : OfferCall C :=
  ⟨client, w.host.id, e.asking.autoAccept⟩

/-- The calls that the step from `w` makes. -/
def offerCalls (w : Serve) (e : Env) (l : Listening C) : List (OfferCall C) :=
  match w.batch with
  | .askUser _ :: _ =>
      l.announced.map (offerCall w e) ++
        if e.asking.autoAccept then [] else l.asked.map (offerCall w e)
  | _ => []

/-- What `QsHost::ask` finds is the list as it is then. -/
def Listening.env (l : Listening C) (e : Env) : Env :=
  { e with asking := { e.asking with clients := l.asked.length } }

def Hearing.step (v : Hearing C) (m : Env × Listening C) : Option (Hearing C) :=
  (v.loop.step (m.2.env m.1)).map fun w =>
    { loop := w, calls := v.calls ++ offerCalls v.loop (m.2.env m.1) m.2 }

/-- The receive loop at its first step. -/
def Hearing.start (bootstrap : Protocol.Upgrade.Medium) (fill : Option RandomFill) (id : Int)
    (inbox : HashMap Text Bytes) : Hearing C :=
  { loop := .init bootstrap fill id inbox }

/-- Nobody is told twice of one transfer, and nobody of one that is accepted anyway. -/
structure OneEach (calls : List (OfferCall C)) : Prop where
  once : (calls.map fun c => (c.client, c.transfer)).Nodup
  asked : ∀ c ∈ calls, c.auto = false

/-- Where the step puts a question: nobody hears the announcement of an offer that is
accepted anyway, and nobody who hears the announcement is in the list when it is gone
through again. -/
def HeardOnce (v : Hearing C) (m : Env × Listening C) : Prop :=
  ∀ i rest, v.loop.batch = .askUser i :: rest →
    if m.1.asking.autoAccept then m.2.announced = [] else m.2.announced.Disjoint m.2.asked

theorem oneEach_nil : OneEach ([] : List (OfferCall C)) :=
  ⟨List.nodup_nil, fun _ hc => absurd hc List.not_mem_nil⟩

theorem offerCalls_of_ne {w : Serve} (h : ∀ i rest, w.batch ≠ .askUser i :: rest) (e : Env)
    (l : Listening C) : offerCalls w e l = [] := by
  unfold offerCalls
  split
  next i rest hbatch => exact absurd hbatch (h i rest)
  · rfl

/-- **The calls for one question** are one for each client exactly where it is heard once. -/
theorem oneEach_offerCalls_iff {w : Serve} {i : Introduction} {rest : List Effect}
    (hbatch : w.batch = .askUser i :: rest) (e : Env) (l : Listening C) :
    OneEach (offerCalls w e l) ↔
      if e.asking.autoAccept then l.announced = [] else l.announced.Disjoint l.asked := by
  unfold offerCalls
  rw [hbatch]
  cases hauto : e.asking.autoAccept with
  | true =>
      simp only [if_true, List.append_nil]
      constructor
      · intro h
        rw [List.eq_nil_iff_forall_not_mem]
        intro c hc
        have hasked := h.asked _ (List.mem_map_of_mem hc)
        rw [offerCall, hauto] at hasked
        cases hasked
      · intro hnil
        rw [hnil]
        exact oneEach_nil
  | false =>
      simp only [Bool.false_eq_true, if_false]
      rw [← List.map_append]
      have hpairs : ((l.announced ++ l.asked).map (offerCall w e)).map
          (fun c => (c.client, c.transfer)) =
            (l.announced ++ l.asked).map fun c => (c, w.host.id) := by
        rw [List.map_map]
        rfl
      constructor
      · intro h
        have hnodup := h.once
        rw [hpairs] at hnodup
        exact (List.nodup_append'.mp hnodup.of_map).2.2
      · intro hapart
        refine ⟨?_, fun call hcall => ?_⟩
        · rw [hpairs]
          exact (l.announced_nodup.append l.asked_nodup hapart).map
            fun a b hab => (Prod.mk.inj hab).1
        · obtain ⟨client, -, rfl⟩ := List.mem_map.mp hcall
          exact hauto

/-! ## Over a run -/

/-- There has been a question where there have been calls. -/
structure Hearing.Inv (v : Hearing C) : Prop where
  loop : Quickshare.Inv v.loop.batch v.loop
  offered : v.calls ≠ [] → offers v.loop.log ≠ []

variable {v v' : Hearing C} {m : Env × Listening C}

theorem loop_step (h : v.step m = some v') :
    v.loop.step (m.2.env m.1) = some v'.loop ∧
      v'.calls = v.calls ++ offerCalls v.loop (m.2.env m.1) m.2 := by
  obtain ⟨w, hw, rfl⟩ := Option.map_eq_some_iff.mp h
  exact ⟨hw, rfl⟩

/-- The question is the first one. -/
theorem Hearing.Inv.unasked (inv : v.Inv) (running : v.loop.outcome = none) {i : Introduction}
    {rest : List Effect} (hbatch : v.loop.batch = .askUser i :: rest) : v.calls = [] := by
  have hle := (inv.loop.live running).talk.asked_le
  have hqueue : v.loop.queue = .askUser i :: (rest ++ v.loop.pending) := by
    rw [Serve.queue, hbatch]
    rfl
  have hasked : (Effect.askUser i :: (rest ++ v.loop.pending)).filterMap Effect.asked =
      i :: (rest ++ v.loop.pending).filterMap Effect.asked := rfl
  rw [hqueue, hasked, List.length_append, List.length_cons] at hle
  by_contra hcalls
  exact inv.offered hcalls (List.eq_nil_of_length_eq_zero (by omega))

theorem Hearing.Inv.step (inv : v.Inv) (h : v.step m = some v') : v'.Inv := by
  obtain ⟨hloop, hcalls⟩ := loop_step h
  refine ⟨inv.loop.step hloop, fun hne => ?_⟩
  have hgrows : offers v.loop.log <+: offers v'.loop.log := by
    obtain ⟨acts, hacts⟩ := Serve.log_step hloop
    rw [← hacts, offers_append]
    exact List.prefix_append _ _
  by_cases hold : v.calls = []
  · -- the calls are those of this step
    rw [hcalls, hold, List.nil_append] at hne
    generalize v'.loop = w' at hloop
    cases Serve.steps_of_step hloop with
    | effect effect rest _ hbatch =>
        cases effect with
        | askUser i =>
            intro hnil
            have hlog : Act.asked i (m.2.env m.1).asking.ask ∈ (({ v.loop with
                batch := rest } : Serve).perform (m.2.env m.1) (.askUser i)).log :=
              List.mem_append_right _ (List.mem_singleton.mpr rfl)
            have hmem : i ∈ offers _ := List.mem_filterMap.mpr ⟨_, hlog, rfl⟩
            rw [hnil] at hmem
            cases hmem
        | _ =>
            exact absurd (offerCalls_of_ne (by simp [hbatch]) _ _) hne
    | turn _ hbatch => exact absurd (offerCalls_of_ne (by simp [hbatch]) _ _) hne
  · intro hnil
    rw [hnil] at hgrows
    exact inv.offered hold (List.prefix_nil.mp hgrows)

/-- One step, from a state in which nobody has heard too much. -/
theorem oneEach_step_iff (inv : v.Inv) (good : OneEach v.calls) (h : v.step m = some v') :
    OneEach v'.calls ↔ HeardOnce v m := by
  obtain ⟨hloop, hcalls⟩ := loop_step h
  rw [hcalls]
  by_cases hask : ∃ i rest, v.loop.batch = .askUser i :: rest
  · obtain ⟨i, rest, hbatch⟩ := hask
    rw [inv.unasked (Serve.running_of_step hloop) hbatch, List.nil_append,
      oneEach_offerCalls_iff hbatch]
    constructor
    · exact fun hheard _ _ _ => hheard
    · exact fun hheard => hheard i rest hbatch
  · have hne : ∀ i rest, v.loop.batch ≠ .askUser i :: rest :=
      fun i rest hbatch => hask ⟨i, rest, hbatch⟩
    rw [offerCalls_of_ne hne, List.append_nil]
    exact ⟨fun _ i rest hbatch => absurd hbatch (hne i rest), fun _ => good⟩

/-- **One prompt for one question.**  In every state that a run of `serve` goes through each
client has been told at most once of a transfer, and of none that is accepted without
asking, exactly where every step meets `HeardOnce`. -/
theorem one_prompt_iff {bootstrap : Protocol.Upgrade.Medium} {fill : Option RandomFill} {id : Int}
    {inbox : HashMap Text Bytes} {acts : List (Env × Listening C)}
    (run : Lts.Run (Lts.ofPartial Hearing.step) (.start bootstrap fill id inbox) acts v) :
    (∀ pre u, pre <+: acts →
        Lts.Run (Lts.ofPartial Hearing.step) (.start bootstrap fill id inbox) pre u →
        OneEach u.calls) ↔
      Lts.Run (Lts.Restrict (Lts.ofPartial Hearing.step) HeardOnce)
        (.start bootstrap fill id inbox) acts v := by
  apply run.restrict_iff Hearing.Inv (fun v => OneEach v.calls)
  · exact ⟨inv_init bootstrap fill id inbox, fun hne => absurd rfl hne⟩
  · exact oneEach_nil
  · exact fun v m v' inv h => inv.step h
  · exact fun v m v' inv good h => oneEach_step_iff inv good h

/-- One client, registered all the time. -/
def onlyClient : Listening Nat :=
  ⟨[1], [1], List.nodup_singleton 1, List.nodup_singleton 1⟩

/-- A client that is gone before `QsHost::ask` looks: then there is nobody to ask. -/
def goneClient : Listening Nat :=
  ⟨[1], [], List.nodup_singleton 1, List.nodup_nil⟩

/-- A run in which the one client hears the announcement and is gone. -/
theorem one_prompt_goneClient :
    ∃ v : Hearing Nat, v.calls = [⟨1, 5, false⟩] ∧
      ∀ pre u, pre <+: (untilAnswered Quickshare.photo true).map (·, goneClient) →
        Lts.Run (Lts.ofPartial Hearing.step) (.start .wifiLan (some someFill) 5 ∅) pre u →
        OneEach u.calls := by
  have hcalls : (((untilAnswered Quickshare.photo true).map (·, goneClient)).foldlM Hearing.step
      (Hearing.start .wifiLan (some someFill) 5 ∅)).map Hearing.calls =
        some [⟨1, 5, false⟩] := by
    decide +kernel
  obtain ⟨v, run, hv⟩ := Lts.run_observe Hearing.step Hearing.calls hcalls
  refine ⟨v, hv, (one_prompt_iff run).mpr (run.to_restrict ?_)⟩
  intro m hm u i rest _
  obtain ⟨e, he, rfl⟩ := List.mem_map.mp hm
  have hall : ∀ e ∈ untilAnswered Quickshare.photo true, e.asking.autoAccept = false := by
    decide +kernel
  rw [hall e he]
  exact List.disjoint_nil_right _

/-- The one client is told twice of the photo, and is told of it where nobody is asked. -/
theorem photo_prompted_twice :
    (∃ (acts : List (Env × Listening Nat)) (v : Hearing Nat),
      Lts.Run (Lts.ofPartial Hearing.step) (.start .wifiLan (some someFill) 5 ∅) acts v ∧
        v.calls = [⟨1, 5, false⟩, ⟨1, 5, false⟩] ∧ ¬ OneEach v.calls) ∧
      ∃ (acts : List (Env × Listening Nat)) (v : Hearing Nat),
        Lts.Run (Lts.ofPartial Hearing.step) (.start .wifiLan (some someFill) 5 ∅) acts v ∧
          v.calls = [⟨1, 5, true⟩] ∧ ¬ OneEach v.calls := by
  constructor
  · have hcalls : (((untilAnswered Quickshare.photo true).map (·, onlyClient)).foldlM Hearing.step
        (Hearing.start .wifiLan (some someFill) 5 ∅)).map Hearing.calls =
          some [⟨1, 5, false⟩, ⟨1, 5, false⟩] := by
      decide +kernel
    obtain ⟨v, run, hv⟩ := Lts.run_observe Hearing.step Hearing.calls hcalls
    refine ⟨_, v, run, hv, fun good => ?_⟩
    have hnodup := good.once
    rw [hv] at hnodup
    exact absurd hnodup (by decide)
  · have hcalls : ((((untilAnswered Quickshare.photo true).map fun e =>
        { e with asking := { autoAccept := true } }).map (·, onlyClient)).foldlM Hearing.step
        (Hearing.start .wifiLan (some someFill) 5 ∅)).map Hearing.calls =
          some [⟨1, 5, true⟩] := by
      decide +kernel
    obtain ⟨v, run, hv⟩ := Lts.run_observe Hearing.step Hearing.calls hcalls
    refine ⟨_, v, run, hv, fun good => ?_⟩
    have hasked := good.asked ⟨1, 5, true⟩ (by rw [hv]; exact List.mem_singleton.mpr rfl)
    cases hasked

end Sharingd
