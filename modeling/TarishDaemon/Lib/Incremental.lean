import Mathlib.Data.List.Basic

/-!
# Decoders that are fed in pieces

A decoder takes pieces of a stream with `push` and gives an item at a time with
`next`: an item and the decoder behind it, nothing yet, or an error.  Pushes and
requests come in any order.

If more input can change nothing but a "nothing yet", the order is of no
consequence: what a run has given, followed by what is still to be had, is what the
whole stream gives (`run_drains`).
-/

namespace Incremental

/-- A request or a piece. -/
inductive Op (B : Type*)
  | push (bytes : List B)
  | next

variable {D B F E : Type*} (push : D → List B → D) (next : D → Except E (Option F × D))

/-- Everything that is pushed, in order. -/
def stream : List (Op B) → List B
  | [] => []
  | .push bytes :: ops => bytes ++ stream ops
  | .next :: ops => stream ops

/-- One call, and what it returned.  An error leaves the decoder as it was. -/
def request (d : D) : D × Except E (Option F) :=
  match next d with
  | .ok (item, d') => (d', .ok item)
  | .error e => (d, .error e)

/-- Run the calls: the decoder they leave and the answers to the requests. -/
def run : D → List (Op B) → D × List (Except E (Option F))
  | d, [] => (d, [])
  | d, .push bytes :: ops => run (push d bytes) ops
  | d, .next :: ops =>
      let (d', answer) := request next d
      let (last, answers) := run d' ops
      (last, answer :: answers)

/-- The items among the answers. -/
def items (answers : List (Except E (Option F))) : List F :=
  answers.filterMap fun
    | .ok item => item
    | .error _ => none

/-- Asking until there is nothing more: the items, the error if one ends them, and
the decoder that is left. -/
inductive Drains : D → List F → Option E → D → Prop
  | idle {d : D} (h : next d = .ok (none, d)) : Drains d [] none d
  | fail {d : D} {e : E} (h : next d = .error e) : Drains d [] (some e) d
  | item {d d' rest : D} {f : F} {fs : List F} {stop : Option E}
      (h : next d = .ok (some f, d')) (more : Drains d' fs stop rest) :
      Drains d (f :: fs) stop rest

variable {push next}

theorem Drains.unique {d rest rest' : D} {fs fs' : List F} {stop stop' : Option E}
    (h : Drains next d fs stop rest) (h' : Drains next d fs' stop' rest') :
    fs = fs' ∧ stop = stop' ∧ rest = rest' := by
  induction h generalizing fs' with
  | idle hn =>
      cases h' with
      | idle => exact ⟨rfl, rfl, rfl⟩
      | fail hn' => rw [hn] at hn'; cases hn'
      | item hn' => rw [hn] at hn'; cases hn'
  | fail hn =>
      cases h' with
      | idle hn' => rw [hn] at hn'; cases hn'
      | fail hn' =>
          rw [hn] at hn'
          cases hn'
          exact ⟨rfl, rfl, rfl⟩
      | item hn' => rw [hn] at hn'; cases hn'
  | item hn more ih =>
      cases h' with
      | idle hn' => rw [hn] at hn'; cases hn'
      | fail hn' => rw [hn] at hn'; cases hn'
      | item hn' more' =>
          rw [hn] at hn'
          cases hn'
          obtain ⟨rfl, rfl, rfl⟩ := ih more'
          exact ⟨rfl, rfl, rfl⟩

/-- More input changes nothing but a "nothing yet", and a decoder that has nothing
to give is left as it is. -/
structure Stable (push : D → List B → D) (next : D → Except E (Option F × D)) : Prop where
  push_nil : ∀ d, push d [] = d
  push_push : ∀ d a b, push (push d a) b = push d (a ++ b)
  idle : ∀ {d d'}, next d = .ok (none, d') → d' = d
  item : ∀ {d d' f} b, next d = .ok (some f, d') → next (push d b) = .ok (some f, push d' b)
  fail : ∀ {d e} b, next d = .error e → next (push d b) = .error e

/-- **An error stays.**  Whatever is pushed, every later request is answered with
it. -/
theorem Stable.error_stays (stable : Stable push next) {e : E} (ops : List (Op B)) {d : D}
    (h : next d = .error e) : ∀ answer ∈ (run push next d ops).2, answer = .error e := by
  induction ops generalizing d with
  | nil => simp [run]
  | cons op ops ih =>
      cases op with
      | push bytes => exact ih (stable.fail bytes h)
      | next =>
          have hrun : (run push next d (.next :: ops)).2 =
              .error e :: (run push next d ops).2 := by
            simp [run, request, h]
          intro answer hanswer
          rw [hrun, List.mem_cons] at hanswer
          rcases hanswer with rfl | hlater
          · rfl
          · exact ih h answer hlater

/-- **The order of pieces and requests does not matter.**  What a run has given,
and then what the decoder it leaves still gives, is what the whole stream gives at
once; and an error among the answers is the one the whole stream ends with, with
nothing left to give before it. -/
theorem Stable.run_drains (stable : Stable push next) (ops : List (Op B)) {d rest : D}
    {fs : List F} {stop : Option E}
    (whole : Drains next (push d (stream ops)) fs stop rest) :
    ∃ later, Drains next (run push next d ops).1 later stop rest ∧
      fs = items (run push next d ops).2 ++ later ∧
      ∀ e, .error e ∈ (run push next d ops).2 → stop = some e ∧ later = [] := by
  -- the induction is on the calls; the stream is what is still to be pushed
  induction ops generalizing d fs with
  | nil =>
      rw [stream, stable.push_nil] at whole
      exact ⟨fs, whole, rfl, by simp [run]⟩
  | cons op ops ih =>
      cases op with
      | push bytes =>
          rw [stream, ← stable.push_push] at whole
          exact ih whole
      | next =>
          rw [stream] at whole
          cases hnext : next d with
          | error e =>
              obtain ⟨later, hlater, hfs, -⟩ := ih whole
              obtain ⟨rfl, rfl, -⟩ := whole.unique (Drains.fail (stable.fail (stream ops) hnext))
              have hlast : later = [] := (List.append_eq_nil_iff.mp hfs.symm).2
              refine ⟨later, ?_, ?_, ?_⟩
              · simpa [run, request, hnext] using hlater
              · simpa [run, request, hnext, items] using hfs
              · intro e' he'
                have hsame := stable.error_stays (.next :: ops) hnext _ he'
                cases hsame
                exact ⟨rfl, hlast⟩
          | ok r =>
              obtain ⟨item, d'⟩ := r
              cases item with
              | none =>
                  obtain rfl := stable.idle hnext
                  obtain ⟨later, hlater, hfs, herr⟩ := ih whole
                  exact ⟨later, by simpa [run, request, hnext] using hlater,
                    by simpa [run, request, hnext, items] using hfs,
                    by simpa [run, request, hnext] using herr⟩
              | some f =>
                  cases whole with
                  | idle hn => rw [stable.item _ hnext] at hn; cases hn
                  | fail hn => rw [stable.item _ hnext] at hn; cases hn
                  | item hn more =>
                      rw [stable.item _ hnext] at hn
                      cases hn
                      obtain ⟨later, hlater, hfs, herr⟩ := ih more
                      exact ⟨later, by simpa [run, request, hnext] using hlater,
                        by simpa [run, request, hnext, items] using hfs,
                        by simpa [run, request, hnext] using herr⟩

end Incremental
