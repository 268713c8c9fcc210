import BisayaPlus.Proofs.Endings
import BisayaPlus.Proofs.Progress
import BisayaPlus.Proofs.Reached
/-!
# Jumps stay in their loops

Every HUNONG and PADAYON that is read stands in the body of a loop, however many
statements were dropped before it. So a jump never leaves the statements of a
program: it cuts one round of the innermost loop around it, which then ends or
goes on with its next round.
-/

set_option autoImplicit false

namespace BisayaPlus

open TokenReader Grammar Execution

variable {T : Token → Prop} {clean : Prop}

/-! ## Where jumps stand -/

namespace Stmt

/-- How the statement ends, if it is a jump. -/
def jump? : Stmt → Option Flow
  | hunong _ => some .hunong
  | padayon _ => some .padayon
  | _ => none

/-- `Encloses s loops inner`: `inner` is `s` or stands in `s`, and these are the
loops of `s` around it, the innermost first. -/
inductive Encloses : Stmt → List Stmt → Stmt → Prop where
  | self {s : Stmt} : Encloses s [] s
  | pundok {body loops : List Stmt} {s inner : Stmt} : s ∈ body → Encloses s loops inner →
      Encloses (.pundok body) loops inner
  | kung {keyword : Token} {condition : Expr} {body inner : Stmt} {alternatives : List (Expr × Stmt)}
      {otherwise : Option Stmt} {loops : List Stmt} : Encloses body loops inner →
      Encloses (.kung keyword condition body alternatives otherwise) loops inner
  | alternative {keyword : Token} {condition : Expr} {body inner : Stmt} {alternatives : List (Expr × Stmt)}
      {otherwise : Option Stmt} {loops : List Stmt} {branch : Expr × Stmt} : branch ∈ alternatives →
      Encloses branch.2 loops inner → Encloses (.kung keyword condition body alternatives otherwise) loops inner
  | otherwise {keyword : Token} {condition : Expr} {body last inner : Stmt} {alternatives : List (Expr × Stmt)}
      {loops : List Stmt} : Encloses last loops inner →
      Encloses (.kung keyword condition body alternatives (some last)) loops inner
  | mintras {keyword : Token} {condition : Expr} {body inner : Stmt} {loops : List Stmt} :
      Encloses body loops inner →
      Encloses (.mintras keyword condition body) (loops ++ [.mintras keyword condition body]) inner
  | buhata {keyword : Token} {condition : Expr} {body inner : Stmt} {loops : List Stmt} :
      Encloses body loops inner →
      Encloses (.buhata keyword body condition) (loops ++ [.buhata keyword body condition]) inner

theorem Encloses.trans {a b c : Stmt} {outer inner : List Stmt} (h : Encloses a outer b) (h' : Encloses b inner c) :
    Encloses a (inner ++ outer) c := by
  induction h with
  | self => rwa [List.append_nil]
  | pundok hs _ ih => exact .pundok hs (ih h')
  | kung _ ih => exact .kung (ih h')
  | alternative hb _ ih => exact .alternative hb (ih h')
  | otherwise _ ih => exact .otherwise (ih h')
  | mintras _ ih =>
    rw [← List.append_assoc]
    exact .mintras (ih h')
  | buhata _ ih =>
    rw [← List.append_assoc]
    exact .buhata (ih h')

/-- What stands in a well-formed statement is well formed, and inside a loop if
one is around it. -/
theorem Encloses.wellFormed {s inner : Stmt} {loops : List Stmt} (h : Encloses s loops inner) :
    ∀ {inLoop : Bool}, s.WellFormed T clean inLoop → inner.WellFormed T clean (inLoop || !loops.isEmpty) := by
  have hloop : ∀ (loops : List Stmt) (s : Stmt) (inLoop : Bool), (inLoop || !(loops ++ [s]).isEmpty) = true := by simp
  induction h with
  | self => exact fun hs => by simpa using hs
  | pundok hs _ ih => exact fun | .pundok hbody => ih (hbody _ hs)
  | kung _ ih => exact fun | .kung _ _ _ hbody _ _ _ => ih hbody
  | alternative hb _ ih => exact fun | .kung _ _ _ _ _ halternatives _ => ih (halternatives _ hb)
  | otherwise _ ih => exact fun | .kung _ _ _ _ _ _ hotherwise => ih (hotherwise _ rfl)
  | mintras _ ih => exact fun | .mintras _ _ _ hbody => hloop _ _ _ ▸ ih hbody
  | buhata _ ih => exact fun | .buhata _ _ hbody _ => hloop _ _ _ ▸ ih hbody

theorem WellFormed.inLoop_of_jump {s : Stmt} {inLoop : Bool} {flow : Flow} (h : s.WellFormed T clean inLoop)
    (hj : s.jump? = some flow) : inLoop = true := by
  cases h <;> first | rfl | cases hj

end Stmt

/-! ## One step of a run -/

section Jumps

variable (watchers : Watchers) (rounds : Nat)

/-- A part of a run, and how it ends if it is seen as a statement. -/
def Task.run : Task → Execution Flow
  | program p => do
    let _ ← p.execution watchers rounds
    pure .normal
  | interpret statements => do
    Program.interpret watchers rounds statements
    pure .normal
  | execute s => s.execute watchers rounds
  | executeAll body => BisayaPlus.executeAll watchers rounds body
  | executeFirst alternatives otherwise =>
    BisayaPlus.executeFirst watchers rounds (executeOtherwise watchers rounds otherwise) alternatives
  | whileHolds condition body left => Execution.whileHolds (holds condition) (body.execute watchers rounds) left
  | untilFails body condition left => Execution.untilFails (holds condition) (body.execute watchers rounds) left
  | declare declared names => do
    Execution.declare declared names
    pure .normal
  | store fields => do
    Execution.store fields
    pure .normal
  | evaluate e => do
    let _ ← value e
    pure .normal

/-- The parts of a statement up to the loops in it. -/
def Task.inBody : Task → Bool
  | .execute _ | .executeAll _ | .executeFirst _ _ => true
  | _ => false

/-- The body of a part that goes round. -/
def Task.body? : Task → Option Stmt
  | .whileHolds _ body _ | .untilFails body _ _ => some body
  | _ => none

/-- The statements of which the part runs one or more. -/
inductive Task.Has : Task → Stmt → Prop where
  | program {p : Program} {s : Stmt} : s ∈ p.statements → Has (.program p) s
  | interpret {statements : List Stmt} {s : Stmt} : s ∈ statements → Has (.interpret statements) s
  | execute {s : Stmt} : Has (.execute s) s
  | executeAll {body : List Stmt} {s : Stmt} : s ∈ body → Has (.executeAll body) s
  | executeFirst {alternatives : List (Expr × Stmt)} {otherwise : Option Stmt} {branch : Expr × Stmt} :
      branch ∈ alternatives → Has (.executeFirst alternatives otherwise) branch.2
  | otherwise {alternatives : List (Expr × Stmt)} {s : Stmt} : Has (.executeFirst alternatives (some s)) s

/-- `Passes task m part m'`: the part runs on `m'` somewhere in the run of the
task, and outside the loops in it. -/
inductive Passes (task : Task) (m : Machine) : Task → Machine → Prop where
  | self : Passes task m task m
  | call {part part' : Task} {m' m'' : Machine} : Passes task m part m' → part.inBody = true →
      Calls watchers rounds part m' part' m'' → Passes task m part' m''

/-- `Round loop m body m' next`: the loop on `m` comes to run its body on `m'`,
and goes on with `next` unless the body leaves it. -/
inductive Round : Task → Machine → Stmt → Machine → Execution Flow → Prop where
  | whileHolds {condition : Expr} {body : Stmt} {left : Nat} {m m' : Machine} : holds condition m = (.ok true, m') →
      Round (.whileHolds condition body (left + 1)) m body m'
        (Execution.whileHolds (holds condition) (body.execute watchers rounds) left)
  | untilFails {condition : Expr} {body : Stmt} {left : Nat} {m : Machine} :
      Round (.untilFails body condition (left + 1)) m body m (do
        if ← holds condition then Execution.untilFails (holds condition) (body.execute watchers rounds) left
        else pure .normal)

/-- The machine after this many scopes were closed. -/
def closed : Nat → Machine → Machine
  | 0, m => m
  | n + 1, m => closed n { m with scopes := m.scopes.pop }

end Jumps

variable {watchers : Watchers} {rounds : Nat} {task part : Task} {m m' m'' : Machine} {flow : Flow}

theorem closed_closed (k n : Nat) (m : Machine) : closed n (closed k m) = closed (k + n) m := by
  induction k generalizing m with
  | zero => rw [closed, Nat.zero_add]
  | succ k ih => rw [closed, ih, Nat.succ_add, closed]

theorem ok_of_bind {α β : Type} {x : Execution α} {f : α → Execution β} {b : β}
    (h : (x >>= f) m = (.ok b, m')) : ∃ a between, x m = (.ok a, between) ∧ f a between = (.ok b, m') := by
  rw [Execution.run_bind] at h
  split at h
  · next a between hx => exact ⟨a, between, hx, h⟩
  · cases h

theorem normal_of_pure (h : (pure .normal : Execution Flow) m = (.ok flow, m')) : flow = .normal :=
  (Except.ok.inj (Prod.mk.inj h).1).symm

/-- A loop takes the jumps of its body. -/
theorem normal_of_whileHolds {test : Execution Bool} {body : Execution Flow} (left : Nat) :
    ∀ {m : Machine}, whileHolds test body left m = (.ok flow, m') → flow = .normal := by
  induction left with
  | zero =>
    intro m h
    cases h
  | succ left ih =>
    intro m h
    obtain ⟨holds, between, -, h⟩ := ok_of_bind h
    split at h
    · obtain ⟨inner, between', -, h⟩ := ok_of_bind h
      split at h
      · exact normal_of_pure h
      · exact ih h
    · exact normal_of_pure h

theorem normal_of_untilFails {test : Execution Bool} {body : Execution Flow} (left : Nat) :
    ∀ {m : Machine}, untilFails test body left m = (.ok flow, m') → flow = .normal := by
  induction left with
  | zero =>
    intro m h
    cases h
  | succ left ih =>
    intro m h
    obtain ⟨inner, between, -, h⟩ := ok_of_bind h
    split at h
    · exact normal_of_pure h
    · obtain ⟨holds, between', -, h⟩ := ok_of_bind h
      split at h
      · exact ih h
      · exact normal_of_pure h

theorem run_execute_jump {s : Stmt} (hj : s.jump? = some flow) (m : Machine) :
    s.execute watchers rounds m = (.ok flow, announced watchers s m) := by
  cases s with
  | hunong keyword | padayon keyword =>
    obtain rfl := Option.some.inj hj
    rw [Stmt.execute, Execution.run_bind, run_announced]
    rfl
  | _ => cases hj

/-- A jump of a part is a jump of the whole, and nothing of the whole runs after
it: only the scopes around the part are closed. -/
theorem Calls.jumps (h : Calls watchers rounds task m part m') (ht : task.inBody = true)
    (hr : part.run watchers rounds m' = (.ok flow, m'')) (hf : flow ≠ .normal) :
    ∃ n, task.run watchers rounds m = (.ok flow, closed n m'') := by
  have hsimple : ∀ {α : Type} {x : Execution α} {m m' : Machine},
      (x >>= fun _ => pure Flow.normal) m = (.ok flow, m') → False := by
    intro α x m m' h
    obtain ⟨_, _, -, h⟩ := ok_of_bind h
    exact hf (normal_of_pure h)
  cases h with
  | expr | ipakita | mugna | dawat | kung | test => exact (hsimple hr).elim
  | mintras => exact absurd (normal_of_whileHolds _ hr) hf
  | buhata => exact absurd (normal_of_untilFails _ hr) hf
  | @pundok body m m' hm =>
    subst hm
    have hbody : BisayaPlus.executeAll watchers rounds body _ = (.ok flow, m'') := hr
    refine ⟨1, ?_⟩
    rw [Task.run, Stmt.execute, Execution.run_bind, run_announced]
    simp only [inScope, hbody]
    rfl
  | kungHolds hs hc =>
    subst hs
    refine ⟨0, ?_⟩
    rw [Task.run, Stmt.execute, Execution.run_bind, run_announced]
    dsimp only
    rw [Execution.run_bind, hc]
    exact hr
  | kungFails hs hc =>
    subst hs
    refine ⟨0, ?_⟩
    rw [Task.run, Stmt.execute, Execution.run_bind, run_announced]
    dsimp only
    rw [Execution.run_bind, hc]
    exact hr
  | first =>
    have hs : Stmt.execute watchers rounds _ m = (.ok flow, m'') := hr
    refine ⟨0, ?_⟩
    rw [Task.run, executeAll, Execution.run_bind, hs]
    cases flow with
    | normal => exact absurd rfl hf
    | hunong | padayon => rfl
  | rest hs =>
    refine ⟨0, ?_⟩
    rw [Task.run, executeAll, Execution.run_bind, hs]
    exact hr
  | testHolds hc | testFails hc =>
    refine ⟨0, ?_⟩
    rw [Task.run, executeFirst, Execution.run_bind, hc]
    exact hr
  | otherwise =>
    refine ⟨0, ?_⟩
    rw [Task.run, executeFirst, executeOtherwise]
    exact hr
  | _ => cases ht

/-- From the jump outwards, by induction on the parts around it. -/
theorem Passes.jumps (h : Passes watchers rounds task m part m') (hr : part.run watchers rounds m' = (.ok flow, m''))
    (hf : flow ≠ .normal) : ∃ n, task.run watchers rounds m = (.ok flow, closed n m'') := by
  induction h generalizing m'' with
  | self => exact ⟨0, hr⟩
  | call _ hb hcall ih =>
    obtain ⟨k, hk⟩ := hcall.jumps hb hr hf
    obtain ⟨n, hn⟩ := ih hk
    exact ⟨k + n, by rw [hn, closed_closed]⟩

/-- HUNONG ends the loop after this round. With PADAYON it goes on as after a
body that came to its end. -/
theorem Round.run_eq {body : Stmt} {next : Execution Flow} (h : Round watchers rounds task m body m' next)
    (hr : body.execute watchers rounds m' = (.ok flow, m'')) :
    task.run watchers rounds m = if flow = .hunong then (.ok .normal, m'') else next m'' := by
  cases h with
  | whileHolds hc =>
    rw [Task.run, Execution.whileHolds, Execution.run_bind, hc]
    dsimp only
    rw [if_pos rfl, Execution.run_bind, hr]
    cases flow <;> rfl
  | untilFails =>
    rw [Task.run, Execution.untilFails, Execution.run_bind, hr]
    cases flow <;> rfl

/-! ## All steps of a run -/

/-- Where the statements of a part come from: the program, the statements around
them, or the loop whose body they are. -/
theorem Calls.has {s : Stmt} (h : Calls watchers rounds task m part m') (hs : part.Has s) :
    task.inBody = false ∧ task.Has s ∨
      task.inBody = true ∧ part.inBody = true ∧ (∃ outer, task.Has outer ∧ outer.Encloses [] s) ∨
      part = .execute s ∧ ∃ next, Round watchers rounds task m s m' next := by
  cases h with
  | program _ =>
    cases hs with
    | interpret hmem => exact .inl ⟨rfl, .program hmem⟩
  | statement =>
    cases hs with
    | execute => exact .inl ⟨rfl, .interpret (List.mem_cons_self ..)⟩
  | statements _ =>
    cases hs with
    | interpret hmem => exact .inl ⟨rfl, .interpret (List.mem_cons_of_mem _ hmem)⟩
  | pundok _ =>
    cases hs with
    | executeAll hmem => exact .inr (.inl ⟨rfl, rfl, _, .execute, .pundok hmem .self⟩)
  | kungHolds heq _ =>
    cases hs with
    | execute => exact .inr (.inl ⟨rfl, rfl, _, .execute, heq ▸ .kung .self⟩)
  | kungFails heq _ =>
    cases hs with
    | executeFirst hmem => exact .inr (.inl ⟨rfl, rfl, _, .execute, heq ▸ .alternative hmem .self⟩)
    | otherwise => exact .inr (.inl ⟨rfl, rfl, _, .execute, heq ▸ .otherwise .self⟩)
  | first =>
    cases hs with
    | execute => exact .inr (.inl ⟨rfl, rfl, _, .executeAll (List.mem_cons_self ..), .self⟩)
  | rest _ =>
    cases hs with
    | executeAll hmem => exact .inr (.inl ⟨rfl, rfl, _, .executeAll (List.mem_cons_of_mem _ hmem), .self⟩)
  | testHolds _ =>
    cases hs with
    | execute => exact .inr (.inl ⟨rfl, rfl, _, .executeFirst (List.mem_cons_self ..), .self⟩)
  | testFails _ =>
    cases hs with
    | executeFirst hmem => exact .inr (.inl ⟨rfl, rfl, _, .executeFirst (List.mem_cons_of_mem _ hmem), .self⟩)
    | otherwise => exact .inr (.inl ⟨rfl, rfl, _, .otherwise, .self⟩)
  | otherwise =>
    cases hs with
    | execute => exact .inr (.inl ⟨rfl, rfl, _, .otherwise, .self⟩)
  | whileBody hc =>
    cases hs with
    | execute => exact .inr (.inr ⟨rfl, _, .whileHolds hc⟩)
  | untilBody =>
    cases hs with
    | execute => exact .inr (.inr ⟨rfl, _, .untilFails⟩)
  | _ => cases hs

theorem Calls.body? {body : Stmt} (h : Calls watchers rounds task m part m') (hb : part.body? = some body) :
    task.body? = some body ∨ ∃ loop, task.Has loop ∧ loop.Encloses [loop] body := by
  cases h with
  | mintras =>
    obtain rfl := Option.some.inj hb
    exact .inr ⟨_, .execute, .mintras .self⟩
  | buhata =>
    obtain rfl := Option.some.inj hb
    exact .inr ⟨_, .execute, .buhata .self⟩
  | whileAgain | untilAgain => exact .inl hb
  | _ => cases hb

/-- In the run of a task, the part runs in a round of a loop, and outside the
loops in the body of that loop. -/
def InRound (watchers : Watchers) (rounds : Nat) (task : Task) (m : Machine) (part : Task) (m' : Machine) : Prop :=
  ∃ loop start body entry next, Runs watchers rounds task m loop start ∧
    Round watchers rounds loop start body entry next ∧ Passes watchers rounds (.execute body) entry part m'

/-- Well-formed statements stay so, and those that may jump are in a round. -/
theorem Runs.inRound {statements : List Stmt} (hstatements : ∀ s ∈ statements, s.WellFormed T clean false)
    (h : Runs watchers rounds (.interpret statements) m part m') :
    (∀ body, part.body? = some body → body.WellFormed T clean true) ∧
      ∀ s, part.Has s → s.WellFormed T clean false ∨ part.inBody = true ∧ s.WellFormed T clean true ∧
        InRound watchers rounds (.interpret statements) m part m' := by
  induction h with
  | self =>
    refine ⟨fun body hb => (nomatch hb), fun s hs => ?_⟩
    cases hs with
    | interpret hmem => exact .inl (hstatements s hmem)
  | @call part part' m' m'' hruns hcall ih =>
    obtain ⟨hloop, hhas⟩ := ih
    refine ⟨fun body hb => ?_, fun s hs => ?_⟩
    · rcases hcall.body? hb with hbody | ⟨loop, hmem, hencloses⟩
      · exact hloop body hbody
      · rcases hhas loop hmem with hw | ⟨-, hw, -⟩ <;> exact hencloses.wellFormed hw
    · rcases hcall.has hs with ⟨hout, hmem⟩ | ⟨hin, hin', outer, hmem, hencloses⟩ | ⟨rfl, next, hround⟩
      · -- a statement of the program itself
        rcases hhas s hmem with hw | ⟨hin, -⟩
        · exact .inl hw
        · rw [hout] at hin
          cases hin
      · rcases hhas outer hmem with hw | ⟨-, hw, loop, start, body, entry, next, hloop, hround, hpasses⟩
        · exact .inl (hencloses.wellFormed hw)
        · refine .inr ⟨hin', hencloses.wellFormed hw, loop, start, body, entry, next, hloop, hround, ?_⟩
          exact hpasses.call hin hcall
      · -- the body of a loop, which starts a round
        have hbody : part.body? = some s := by
          cases hround <;> rfl
        exact .inr ⟨rfl, hloop s hbody, part, m', s, m'', next, hruns, hround, .self⟩

theorem Passes.encloses {body : Stmt} (h : Passes watchers rounds (.execute body) m part m') :
    ∀ s, part.Has s → body.Encloses [] s := by
  induction h with
  | self =>
    intro s hs
    cases hs with
    | execute => exact .self
  | call _ hin hcall ih =>
    intro s hs
    rcases hcall.has hs with ⟨hout, -⟩ | ⟨-, -, outer, hmem, hencloses⟩ | ⟨-, next, hround⟩
    · rw [hin] at hout
      cases hout
    · exact (ih outer hmem).trans hencloses
    · cases hround <;> cases hin

/-- In the run of a task, the jump that runs on `m'` cuts a round of the innermost
loop around it. Nothing runs after it in the body of that loop, where only scopes
are closed. Then the loop ends, or goes on with its next round, and no jump is
left for the loops around it. -/
def CutsRound (watchers : Watchers) (rounds : Nat) (task : Task) (m : Machine) (jump : Stmt) (m' : Machine) : Prop :=
  ∃ loop start body entry next flow after, Runs watchers rounds task m loop start ∧
    Round watchers rounds loop start body entry next ∧ body.Encloses [] jump ∧ jump.jump? = some flow ∧
    (∃ n, after = closed n (announced watchers jump m')) ∧ body.execute watchers rounds entry = (.ok flow, after) ∧
    loop.run watchers rounds start = (if flow = .hunong then (.ok .normal, after) else next after) ∧
    ∀ ending m'', loop.run watchers rounds start = (.ok ending, m'') → ending = .normal

theorem Runs.cutsRound {statements : List Stmt} (hstatements : ∀ s ∈ statements, s.WellFormed T clean false)
    {jump : Stmt} (hj : jump.jump? = some flow)
    (h : Runs watchers rounds (.interpret statements) m (.execute jump) m') :
    CutsRound watchers rounds (.interpret statements) m jump m' := by
  have hf : flow ≠ .normal := by
    rintro rfl
    cases jump <;> cases hj
  rcases (h.inRound hstatements).2 jump .execute with
    hw | ⟨-, -, loop, start, body, entry, next, hloop, hround, hpasses⟩
  · cases hw.inLoop_of_jump hj
  · obtain ⟨n, hn⟩ := hpasses.jumps (run_execute_jump hj m') hf
    refine ⟨loop, start, body, entry, next, flow, _, hloop, hround, hpasses.encloses jump .execute, hj, ⟨n, rfl⟩, hn,
      hround.run_eq hn, fun ending m'' hr => ?_⟩
    cases hround with
    | whileHolds _ => exact normal_of_whileHolds _ hr
    | untilFails => exact normal_of_untilFails _ hr

theorem Stmt.WellFormed.normal_or_error {s : Stmt} (h : s.WellFormed T clean false) (watchers : Watchers)
    (rounds : Nat) (m : Machine) :
    (s.execute watchers rounds m).1 = .ok .normal ∨ ∃ stop, (s.execute watchers rounds m).1 = .error stop := by
  obtain ⟨result, m', new, hending, -, hrun⟩ := h.ends_execute watchers rounds m
  have hresult : (s.execute watchers rounds m).1 = result := congrArg Prod.fst (hrun m.shown)
  rw [hresult]
  cases hending with
  | gave hflow => exact .inl (by rw [hflow.resolve_left Bool.false_ne_true])
  | fault _ => exact .inr ⟨_, rfl⟩
  | unfinished => exact .inr ⟨_, rfl⟩

/-! ## Programs -/

/-- Jumps never escape. In every statement that is read from tokens with one
end, with or without faults elsewhere, each jump stands in the body of a loop.
The walk over the tokens has no loop around it after any round, whether its
statement was read or dropped. No statement of the program ends by a jump when
it runs, and every jump that runs cuts a round of the innermost loop around it. -/
theorem jumps_stay_in_loops {ts : List Token} (h : EndsOnce ts) :
    let statements := (ReadProgram.ofTokens ts).statements
    (∀ s ∈ statements, ∀ loops jump, s.Encloses loops jump → jump.jump? ≠ none → loops ≠ []) ∧
    (∀ budget, 2 * ts.length + 1 < budget →
      (∃ place, (Walk.program budget).run ts ⟨0, 0, []⟩ =
        .done (statements, (ReadProgram.ofTokens ts).ended) ⟨place, 0, (ReadProgram.ofTokens ts).complaints⟩) ∧
      ∀ place noted, Walk.endsTop (nextKind (ts.drop place)) = false → ∃ read place' noted',
        (Walk.topRound budget (Walk.statement budget)).run ts ⟨place, 0, noted⟩ = .done read ⟨place', 0, noted'⟩) ∧
    ∀ watchers rounds,
      (∀ s ∈ statements, ∀ m, (s.execute watchers rounds m).1 = .ok .normal ∨
        ∃ stop, (s.execute watchers rounds m).1 = .error stop) ∧
      ∀ m m' jump, jump.jump? ≠ none → Runs watchers rounds (.interpret statements) m (.execute jump) m' →
        CutsRound watchers rounds (.interpret statements) m jump m' := by
  intro statements
  have hwell : ∀ s ∈ statements, s.WellFormed (fun _ => True) False false :=
    ReadProgram.wellFormed_ofTokens (fun _ _ => trivial) False.elim
  refine ⟨?_, fun budget hb => ⟨?_, ?_⟩, fun watchers rounds => ⟨?_, ?_⟩⟩
  · intro s hs loops jump hencloses hj hnil
    obtain ⟨flow, hflow⟩ := Option.ne_none_iff_exists'.1 hj
    subst hnil
    cases (hencloses.wellFormed (hwell s hs)).inLoop_of_jump hflow
  · obtain ⟨place, -, hrun⟩ := Walk.run_program h hb
    exact ⟨place, hrun⟩
  · intro place noted hk
    have hb' : 2 * (ts.drop place).length + 1 < budget := by
      rw [List.length_drop]
      omega
    obtain ⟨read, ⟨place', loops, noted'⟩, hrun, -, -, hloops⟩ :=
      Walk.advances_topRound (c := ⟨place, 0, noted⟩) h hb' hk
    obtain rfl : loops = 0 := hloops
    exact ⟨read, place', noted', hrun⟩
  · exact fun s hs m => (hwell s hs).normal_or_error watchers rounds m
  · intro m m' jump hj hruns
    obtain ⟨flow, hflow⟩ := Option.ne_none_iff_exists'.1 hj
    exact hruns.cutsRound hwell hflow

/-- A jump outside a loop is dropped, and the one in the loop after it stays. -/
theorem jumps_stay_in_loops_dropped :
    let t (k : Kind) : Token := { kind := k, lexeme := [], line := 1 }
    let ts := [t .sugod, t .newline, t .hunong, t .newline, t .mintras, t .leftParen, t .oo, t .rightParen, t .hunong,
      t .newline, t .katapusan, t .eof]
    let loop : Stmt := .mintras (t .mintras) (.literal (.tinuod true)) (.hunong (t .hunong))
    EndsOnce ts ∧ ReadProgram.ofTokens ts = ⟨[loop], [⟨.outsideLoop, t .hunong⟩], true⟩ ∧
      (∀ loops jump, loop.Encloses loops jump → jump.jump? ≠ none → loops ≠ []) ∧
      ∃ m', Runs {} 1 (.interpret [loop]) (.fresh []) (.execute (.hunong (t .hunong))) m' ∧
        CutsRound {} 1 (.interpret [loop]) (.fresh []) (.hunong (t .hunong)) m' := by
  intro t ts loop
  have he : EndsOnce ts := ⟨ts.dropLast, t .eof, rfl, rfl, by decide⟩
  obtain ⟨hstand, -, hrun⟩ := jumps_stay_in_loops he
  have hruns : Runs {} 1 (.interpret [loop]) (.fresh []) (.execute (.hunong (t .hunong))) (.fresh []) :=
    ((Runs.self.call .statement).call .mintras).call (.whileBody rfl)
  refine ⟨he, rfl, hstand loop (List.mem_cons_self ..), .fresh [], hruns, ?_⟩
  exact (hrun {} 1).2 _ _ _ (by simp [Stmt.jump?]) hruns

end BisayaPlus
