import OmiLocal.Pipeline.Execute

/-!
# The summaries of an attempt are those of `summarize`

A stage that is not cut off makes the requests of the plain reduction, keeps the
same answers and has the same result.
-/
namespace OmiLocal.Pipeline.Stages

open Lib Lib.Resumable

/-- A run has the result of a plain computation and leaves its answers in the folder. -/
structure Follows {α : Type} (f : Folder) (plain : Except String (α × World)) (run : Folder × Nat × Except String α) :
    Prop where
  ok : ∀ a w, plain = .ok (a, w) → run = ({ f with summaries := w.cache }, w.asked, .ok a)
  error : ∀ error, plain = .error error → run.2.2 = .error error

variable {p : Platform} {provider : Provider} {answer : Nat → (question : Question) → question.Answer}
  {f : Folder} {n : Nat} {α β : Type}

theorem Follows.failed {error : String} {g : Folder} {later : Nat} :
    Follows f (.error error : Except String (α × World)) (g, later, .error error) :=
  ⟨fun _ _ impossible => (nomatch impossible), fun _ same => by cases same; rfl⟩

theorem Follows.done {a : α} {w : World} : Follows f (.ok (a, w)) ({ f with summaries := w.cache }, w.asked, .ok a) :=
  ⟨fun _ _ same => by cases same; rfl, fun _ impossible => (nomatch impossible)⟩

theorem Follows.andThen {g : Folder} {m : Attempt (Except String α)} {next : α → Attempt (Except String β)}
    {plain : Except String (α × World)} {rest : α × World → Except String (β × World)}
    (first : Follows f plain (m.exec answer n g))
    (later : ∀ a w, plain = .ok (a, w) →
      Follows f (rest (a, w)) ((next a).exec answer w.asked { f with summaries := w.cache })) :
    Follows f (plain >>= rest) ((Attempt.andThen m next).exec answer n g) := by
  unfold Attempt.andThen
  rw [Prog.exec_bind]
  cases done : plain with
  | error error =>
      rw [first.error error done]
      exact Follows.failed
  | ok pair =>
      obtain ⟨a, w⟩ := pair
      rw [first.ok a w done]
      exact later a w done

theorem follows_request (answers : ∀ n reduction part, answer n (.summary reduction part) = provider n reduction part)
    (reduction : Bool) (part : List Char) (n : Nat) (f : Folder) :
    Follows f (request p provider reduction part ⟨f.summaries, n⟩) ((requestSummary p reduction part).exec answer n f) := by
  unfold request requestSummary
  simp only [Prog.exec]
  cases found : f.summaries.find? (fun e => e.1 == requestDigest p reduction part) with
  | some entry =>
      obtain ⟨digest, value⟩ := entry
      cases value with
      | obj fields =>
          simp only [Prog.exec]
          cases validateSummary (.obj fields) with
          | error error => exact Follows.failed
          | ok summary => exact Follows.done
      | _ => exact Follows.failed
  | none =>
      simp only [Prog.query, Prog.bind, Prog.exec, answers]
      cases provider n reduction part with
      | none => exact Follows.failed
      | some body =>
          dsimp only
          cases readAnswer p body with
          | error error => exact Follows.failed
          | ok summary => exact Follows.done

theorem follows_requestAll (answers : ∀ n reduction part, answer n (.summary reduction part) = provider n reduction part)
    (reduction : Bool) (parts : List (List Char)) (n : Nat) (f : Folder) :
    Follows f (requestAll p provider reduction parts ⟨f.summaries, n⟩)
      ((requestSummaries p reduction parts).exec answer n f) := by
  induction parts generalizing n f with
  | nil => exact Follows.done
  | cons part rest ih =>
      unfold requestAll requestSummaries
      refine (follows_request answers reduction part n f).andThen fun summary w _ => ?_
      have others := ih w.asked { f with summaries := w.cache }
      have here : Follows f (requestAll p provider reduction rest w)
          ((requestSummaries p reduction rest).exec answer w.asked { f with summaries := w.cache }) :=
        ⟨others.ok, others.error⟩
      exact here.andThen fun _ _ _ => Follows.done

theorem requestAll_length {reduction : Bool} {parts : List (List Char)} {w v : World} {summaries : List Summary}
    (done : requestAll p provider reduction parts w = .ok (summaries, v)) : summaries.length = parts.length := by
  induction parts generalizing w summaries with
  | nil =>
      cases done
      rfl
  | cons part rest ih =>
      obtain ⟨⟨summary, w⟩, -, done⟩ := Fallible.bind_ok done
      obtain ⟨⟨others, w⟩, later, done⟩ := Fallible.bind_ok done
      cases done
      exact congrArg (· + 1) (ih later)

theorem chunksOf_eq {fuel : Nat} {text : List Char} {chunks : List (List Char)}
    (cut : textChunks fuel text summaryChars = some chunks) : chunksOf text = chunks := by
  obtain ⟨same, done, -⟩ := textChunks_covers (show 2 ≤ summaryChars by decide) text (Nat.lt_succ_self text.length)
  unfold chunksOf
  rw [done]
  exact Loop.run_unique done cut

/-- A pass over several summaries fails or leaves fewer of them. -/
theorem reducePass_several {fuel : Nat} {s : List Summary × World}
    {turn : Loop.Turn (List Summary × World) (Except String (List Summary × World))} (several : 1 < s.1.length)
    (pass : reducePass p provider fuel s = some turn) :
    (∃ error, requestAll p provider true (chunksOf (notesOf s.1)) s.2 = .error error ∧ turn = .leave (.error error)) ∨
      ∃ next, requestAll p provider true (chunksOf (notesOf s.1)) s.2 = .ok next ∧ turn = .again next ∧
        next.1.length < s.1.length := by
  unfold reducePass at pass
  rw [if_pos several] at pass
  obtain ⟨chunks, cut, pass⟩ := Option.map_eq_some_iff.mp pass
  rw [chunksOf_eq cut]
  cases asked : requestAll p provider true chunks s.2 with
  | error error =>
      rw [asked] at pass
      exact .inl ⟨error, rfl, pass.symm⟩
  | ok next =>
      rw [asked] at pass
      obtain ⟨same, recut, covers⟩ := textChunks_covers (show 2 ≤ summaryChars by decide) (notesOf s.1)
        (Nat.lt_succ_self _)
      obtain rfl : same = chunks := Loop.run_unique recut cut
      refine .inr ⟨next, rfl, pass.symm, ?_⟩
      rw [requestAll_length asked]
      exact covers.fewer several

theorem follows_reduce (answers : ∀ n reduction part, answer n (.summary reduction part) = provider n reduction part)
    {fuel count passes : Nat} {s : List Summary × World} {result : Except String (List Summary × World)}
    (done : Loop.run (reducePass p provider fuel) count s = some result) (within : s.1.length ≤ passes + 1) :
    Follows f result ((reduceSummaries p passes s.1).exec answer s.2.asked { f with summaries := s.2.cache }) := by
  induction count generalizing passes s with
  | zero => cases done
  | succ count ih =>
      by_cases several : 1 < s.1.length
      · cases passes with
        | zero => omega
        | succ passes =>
            have requests := follows_requestAll (p := p) answers true (chunksOf (notesOf s.1)) s.2.asked
              { f with summaries := s.2.cache }
            unfold reduceSummaries
            rw [if_pos several, Attempt.andThen, Prog.exec_bind]
            cases pass : reducePass p provider fuel s with
            | none =>
                unfold Loop.run at done
                rw [pass] at done
                cases done
            | some turn =>
                rcases reducePass_several several pass with ⟨error, asked, rfl⟩ | ⟨next, asked, rfl, fewer⟩
                · obtain rfl := Option.some.inj ((Loop.run_leave pass count).symm.trans done)
                  rw [requests.error error asked]
                  exact Follows.failed
                · have later := (Loop.run_again pass count).symm.trans done
                  have follows := ih later (show next.1.length ≤ passes + 1 by omega)
                  rw [requests.ok next.1 next.2 asked]
                  exact follows
      · have pass : reducePass p provider fuel s = some (.leave (.ok s)) := if_neg several
        obtain rfl := Option.some.inj ((Loop.run_leave pass count).symm.trans done)
        have ends : reduceSummaries p passes s.1 = .done (.ok s.1) := by
          cases passes with
          | zero => rfl
          | succ passes => exact if_neg several
        rw [ends]
        exact Follows.done

/-- The summary stage that can be killed and the plain `summarize` agree. -/
theorem summarize_follows (answers : ∀ n reduction part, answer n (.summary reduction part) = provider n reduction part)
    (settings : SummarySettings) (raw : Raw) {fuel : Nat} {result : Except String (Summary × World)}
    (done : summarize p provider settings raw.segments ⟨f.summaries, n⟩ fuel = some result) :
    Follows f result ((summarizeRaw p settings raw).exec answer n f) := by
  unfold summarize at done
  unfold summarizeRaw
  cases valid : settings.valid with
  | false =>
      rw [valid] at done
      cases done
      exact Follows.failed
  | true =>
      rw [valid] at done
      simp only [Bool.not_true, Bool.false_eq_true, if_false, Bool.true_eq_false, Option.bind_eq_bind, Option.pure_def,
        Option.bind_eq_some_iff] at done ⊢
      obtain ⟨chunks, cut, done⟩ := done
      have requests := follows_requestAll (p := p) answers false chunks n f
      rw [chunksOf_eq cut]
      cases asked : requestAll p provider false chunks ⟨f.summaries, n⟩ with
      | error error =>
          rw [asked] at done
          cases done
          unfold Attempt.andThen
          rw [Prog.exec_bind, requests.error error asked]
          exact Follows.failed
      | ok first =>
          rw [asked] at done
          obtain ⟨left, ended, done⟩ := Option.bind_eq_some_iff.mp done
          cases done
          have follows := follows_reduce (f := f) answers ended (Nat.le_succ first.1.length)
          unfold Attempt.andThen
          rw [Prog.exec_bind, requests.ok first.1 first.2 asked]
          refine follows.andThen fun summaries w _ => ?_
          cases summaries with
          | nil => exact Follows.failed
          | cons summary others => exact Follows.done

end OmiLocal.Pipeline.Stages
