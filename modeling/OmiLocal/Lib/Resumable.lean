import OmiLocal.Lib.Transition

/-!
# Programs that can be cut off

A program reads and changes a store and asks questions of the world. It can be
cut off before any of its steps: what it wrote stays, and it is started again
from the beginning. A contract says what holds of the store after each write, how
the store grows, and which questions are open in it. A program that keeps its
contract from every store keeps it in every run, whatever is cut off and whatever
the world answers.
-/
namespace Lib.Resumable

universe u v w x y
variable {σ : Type u} {Q : Type v} {Ans : Q → Type w} {ρ : Type x} {τ : Type x} {ε : Type y}

inductive Prog (σ : Type u) (Q : Type v) (Ans : Q → Type w) (ρ : Type x) : Type (max u v w x)
  | done (result : ρ)
  | read (next : σ → Prog σ Q Ans ρ)
  | write (change : σ → σ) (next : Prog σ Q Ans ρ)
  | ask (question : Q) (next : Ans question → Prog σ Q Ans ρ)

def Prog.bind (f : ρ → Prog σ Q Ans τ) : Prog σ Q Ans ρ → Prog σ Q Ans τ
  | .done result => f result
  | .read next => .read fun s => (next s).bind f
  | .write change next => .write change (next.bind f)
  | .ask question next => .ask question fun answer => (next answer).bind f

/-- The answer to a question. -/
def Prog.query (question : Q) : Prog σ Q Ans (Ans question) := .ask question .done

/-! ## Contracts -/

structure Contract (σ : Type u) (Q : Type v) (Ans : Q → Type w) where
  holds : σ → Prop
  grows : σ → σ → Prop
  /-- The questions that may be asked over a store. -/
  opens : σ → Q → Prop
  /-- The answers that are counted on. -/
  answers : ∀ question, Ans question → Prop

variable {c : Contract σ Q Ans} {post : σ → ρ → Prop} {later : σ → τ → Prop}

/-- From a store, each step keeps the contract and each end meets `post`. -/
def Prog.Keeps (c : Contract σ Q Ans) (post : σ → ρ → Prop) : Prog σ Q Ans ρ → σ → Prop
  | .done result, s => post s result
  | .read next, s => (next s).Keeps c post s
  | .write change next, s => c.holds (change s) ∧ c.grows s (change s) ∧ next.Keeps c post (change s)
  | .ask question next, s => c.opens s question ∧ ∀ answer, c.answers question answer → (next answer).Keeps c post s

theorem Prog.Keeps.bind {m : Prog σ Q Ans ρ} {f : ρ → Prog σ Q Ans τ} {s : σ} (first : m.Keeps c post s)
    (rest : ∀ t result, post t result → (f result).Keeps c later t) : (m.bind f).Keeps c later s := by
  induction m generalizing s with
  | done result => exact rest s result first
  | read next ih => exact ih s first
  | write change next ih => exact ⟨first.1, first.2.1, ih first.2.2⟩
  | ask question next ih =>
      refine ⟨first.1, ?_⟩
      intro answer good
      exact ih answer (first.2 answer good)

theorem Prog.Keeps.mono {post' : σ → ρ → Prop} {m : Prog σ Q Ans ρ} {s : σ} (keeps : m.Keeps c post s)
    (weaker : ∀ t result, post t result → post' t result) : m.Keeps c post' s := by
  induction m generalizing s with
  | done result => exact weaker s result keeps
  | read next ih => exact ih s keeps
  | write change next ih => exact ⟨keeps.1, keeps.2.1, ih keeps.2.2⟩
  | ask question next ih =>
      refine ⟨keeps.1, ?_⟩
      intro answer good
      exact ih answer (keeps.2 answer good)

theorem Prog.Keeps.query {question : Q} {s : σ} {met : σ → Ans question → Prop} (opened : c.opens s question)
    (each : ∀ answer, c.answers question answer → met s answer) :
    (Prog.query (σ := σ) question).Keeps c met s :=
  ⟨opened, each⟩

/-- What a program meets under two contracts, the second of which counts on more. -/
theorem Prog.Keeps.and {d : Contract σ Q Ans} {met : σ → ρ → Prop} {m : Prog σ Q Ans ρ} {s : σ} (first : m.Keeps c post s)
    (second : m.Keeps d met s) (more : ∀ question answer, d.answers question answer → c.answers question answer) :
    m.Keeps d (fun t result => post t result ∧ met t result) s := by
  induction m generalizing s with
  | done result => exact ⟨first, second⟩
  | read next ih => exact ih s first second
  | write change next ih => exact ⟨second.1, second.2.1, ih first.2.2 second.2.2⟩
  | ask question next ih =>
      refine ⟨second.1, ?_⟩
      intro answer good
      exact ih answer (first.2 answer (more question answer good)) (second.2 answer good)

/-! ## Runs -/

/-- A store, the program over it, the questions that were asked with the stores they were asked over, and the ends that
were reached, newest first. -/
structure System (σ : Type u) (Q : Type v) (Ans : Q → Type w) (ρ : Type x) where
  store : σ
  running : Option (Prog σ Q Ans ρ)
  asked : List (σ × Q)
  ended : List (σ × ρ)

inductive Event (Q : Type v) (Ans : Q → Type w)
  | start
  /-- One step of the program; it takes the answer if it asks. -/
  | turn (answer : ∀ question : Q, Ans question)
  | cut

def System.step (main : Prog σ Q Ans ρ) (s : System σ Q Ans ρ) : Event Q Ans → Option (System σ Q Ans ρ)
  | .start => if s.running.isSome then none else some { s with running := some main }
  | .turn answer =>
      match s.running with
      | none => none
      | some (.done result) => some { s with running := none, ended := (s.store, result) :: s.ended }
      | some (.read next) => some { s with running := some (next s.store) }
      | some (.write change next) => some { s with store := change s.store, running := some next }
      | some (.ask question next) =>
          some { s with running := some (next (answer question)), asked := (s.store, question) :: s.asked }
  | .cut => some { s with running := none }

def Reached (main : Prog σ Q Ans ρ) (init : σ) : System σ Q Ans ρ → Prop :=
  Transition.Reachable (fun s => s = ⟨init, none, [], []⟩) fun s e t => s.step main e = some t

structure Kept (c : Contract σ Q Ans) (post : σ → ρ → Prop) (s : System σ Q Ans ρ) : Prop where
  holds : c.holds s.store
  running : ∀ m ∈ s.running, m.Keeps c post s.store
  asked : ∀ e ∈ s.asked, c.opens e.1 e.2 ∧ c.grows e.1 s.store
  ended : ∀ e ∈ s.ended, post e.1 e.2 ∧ c.grows e.1 s.store

variable {main : Prog σ Q Ans ρ} {s t : System σ Q Ans ρ}

theorem Kept.step (refl : ∀ a, c.grows a a) (trans : ∀ a b d, c.grows a b → c.grows b d → c.grows a d)
    (any : ∀ question answer, c.answers question answer) (each : ∀ a, c.holds a → main.Keeps c post a)
    (kept : Kept c post s) {e : Event Q Ans} (done : s.step main e = some t) : Kept c post t := by
  cases e with
  | start =>
      simp only [System.step] at done
      split at done <;> cases done
      refine ⟨kept.holds, ?_, kept.asked, kept.ended⟩
      rintro m ⟨⟩
      exact each s.store kept.holds
  | turn answer =>
      cases program : s.running with
      | none => simp [System.step, program] at done
      | some m =>
          have keeps := kept.running m program
          cases m with
          | done result =>
              simp only [System.step, program, Option.some.injEq] at done
              subst done
              refine ⟨kept.holds, ?_, kept.asked, ?_⟩
              · rintro m ⟨⟩
              · intro e member
                rcases List.mem_cons.mp member with rfl | old
                · exact ⟨keeps, refl s.store⟩
                · exact kept.ended e old
          | read next =>
              simp only [System.step, program, Option.some.injEq] at done
              subst done
              refine ⟨kept.holds, ?_, kept.asked, kept.ended⟩
              rintro m ⟨⟩
              exact keeps
          | write change next =>
              simp only [System.step, program, Option.some.injEq] at done
              subst done
              obtain ⟨holds, grows, rest⟩ := keeps
              refine ⟨holds, ?_, ?_, ?_⟩
              · rintro m ⟨⟩
                exact rest
              · intro e member
                exact (kept.asked e member).imp_right fun before => trans _ _ _ before grows
              · intro e member
                exact (kept.ended e member).imp_right fun before => trans _ _ _ before grows
          | ask question next =>
              simp only [System.step, program, Option.some.injEq] at done
              subst done
              refine ⟨kept.holds, ?_, ?_, kept.ended⟩
              · rintro m ⟨⟩
                exact keeps.2 (answer question) (any question _)
              · intro e member
                rcases List.mem_cons.mp member with rfl | old
                · exact ⟨keeps.1, refl s.store⟩
                · exact kept.asked e old
  | cut =>
      cases done
      refine ⟨kept.holds, ?_, kept.asked, kept.ended⟩
      rintro m ⟨⟩

theorem Reached.kept {init : σ} (refl : ∀ a, c.grows a a) (trans : ∀ a b d, c.grows a b → c.grows b d → c.grows a d)
    (any : ∀ question answer, c.answers question answer) (each : ∀ a, c.holds a → main.Keeps c post a)
    (first : c.holds init) (reached : Reached main init s) : Kept c post s := by
  apply Transition.Reachable.invariant (I := Kept c post) ?_ ?_ reached
  · rintro s rfl
    refine ⟨first, ?_, ?_, ?_⟩
    · rintro m ⟨⟩
    · intro e member
      cases member
    · intro e member
      cases member
  · intro s e t kept done
    exact kept.step refl trans any each done

/-- Several steps. -/
def System.steps (main : Prog σ Q Ans ρ) : List (Event Q Ans) → System σ Q Ans ρ → Option (System σ Q Ans ρ)
  | [], s => some s
  | e :: rest, s => (s.step main e).bind (System.steps main rest)

theorem Reached.steps {init : σ} {events : List (Event Q Ans)} (reached : Reached main init s)
    (done : s.steps main events = some t) : Reached main init t := by
  induction events generalizing s with
  | nil =>
      cases done
      exact reached
  | cons e rest ih =>
      obtain ⟨u, first, later⟩ := Option.bind_eq_some_iff.mp done
      exact ih (reached.next first) later

/-! ## Runs to the end -/

/-- The run of a program that is not cut off, where `answer n` answers the n-th question: the store it leaves, the number
of the next question and the result. -/
def Prog.exec (answer : Nat → ∀ question : Q, Ans question) : Prog σ Q Ans ρ → Nat → σ → σ × Nat × ρ
  | .done result, n, s => (s, n, result)
  | .read next, n, s => (next s).exec answer n s
  | .write change next, n, s => next.exec answer n (change s)
  | .ask question next, n, s => (next (answer n question)).exec answer (n + 1) s

theorem Prog.exec_bind (answer : Nat → ∀ question : Q, Ans question) (m : Prog σ Q Ans ρ) (f : ρ → Prog σ Q Ans τ)
    (n : Nat) (s : σ) :
    (m.bind f).exec answer n s =
      (f (m.exec answer n s).2.2).exec answer (m.exec answer n s).2.1 (m.exec answer n s).1 := by
  induction m generalizing n s with
  | done result => rfl
  | read next ih => exact ih s n s
  | write change next ih => exact ih n (change s)
  | ask question next ih => exact ih (answer n question) (n + 1) s

/-- The answers that a run takes are all accepted. -/
def Prog.Answered (accepts : ∀ question, Ans question → Prop) (answer : Nat → ∀ question : Q, Ans question) :
    Prog σ Q Ans ρ → Nat → σ → Prop
  | .done _, _, _ => True
  | .read next, n, s => (next s).Answered accepts answer n s
  | .write change next, n, s => next.Answered accepts answer n (change s)
  | .ask question next, n, s =>
      accepts question (answer n question) ∧ (next (answer n question)).Answered accepts answer (n + 1) s

instance Prog.decidableAnswered (accepts : ∀ question, Ans question → Prop)
    [∀ question answer, Decidable (accepts question answer)] (answer : Nat → ∀ question : Q, Ans question) :
    (m : Prog σ Q Ans ρ) → (n : Nat) → (s : σ) → Decidable (m.Answered accepts answer n s)
  | .done _, _, _ => .isTrue trivial
  | .read next, n, s => decidableAnswered accepts answer (next s) n s
  | .write change next, n, s => decidableAnswered accepts answer next n (change s)
  | .ask question next, n, s =>
      have := decidableAnswered accepts answer (next (answer n question)) (n + 1) s
      inferInstanceAs (Decidable (accepts question (answer n question) ∧
        (next (answer n question)).Answered accepts answer (n + 1) s))

theorem Prog.Keeps.exec {answer : Nat → ∀ question : Q, Ans question} {m : Prog σ Q Ans ρ} {n : Nat} {s : σ}
    (keeps : m.Keeps c post s) (answered : m.Answered c.answers answer n s) :
    post (m.exec answer n s).1 (m.exec answer n s).2.2 := by
  induction m generalizing n s with
  | done result => exact keeps
  | read next ih => exact ih s keeps answered
  | write change next ih => exact ih keeps.2.2 answered
  | ask question next ih => exact ih (answer n question) (keeps.2 _ answered.1) answered.2

/-- The steps of a system that is not cut off lead where `exec` says. -/
theorem Reached.exec {init : σ} (answer : Nat → ∀ question : Q, Ans question) {m : Prog σ Q Ans ρ} (n : Nat)
    (reached : Reached main init s) (running : s.running = some m) :
    ∃ asked, Reached main init ⟨(m.exec answer n s.store).1, none, asked,
      ((m.exec answer n s.store).1, (m.exec answer n s.store).2.2) :: s.ended⟩ := by
  induction m generalizing n s with
  | done result =>
      refine ⟨s.asked, reached.next (a := .turn (answer n)) ?_⟩
      simp only [System.step, running]
      rfl
  | read next ih =>
      have turned := reached.next (a := .turn (answer n)) (t := { s with running := some (next s.store) }) (by
        simp only [System.step, running])
      have onward := ih s.store n turned rfl
      exact onward
  | write change next ih =>
      have turned := reached.next (a := .turn (answer n))
        (t := { s with store := change s.store, running := some next }) (by simp only [System.step, running])
      have onward := ih n turned rfl
      exact onward
  | ask question next ih =>
      have turned := reached.next (a := .turn (answer n))
        (t := { s with running := some (next (answer n question)), asked := (s.store, question) :: s.asked }) (by
          simp only [System.step, running])
      have onward := ih (answer n question) (n + 1) turned rfl
      exact onward

end Lib.Resumable
