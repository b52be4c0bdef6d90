import Observatory.Effect.Machine

/-!
# How processes end

A process of a machine that does not crash ends where its program does.  If every program conforms
to a protocol and ends in a phase that meets `Q`, then so does every process (`Reaches.finishing`):
the rule adds this to the side condition of a run, where `Reaches.induct` hands it on.
-/

namespace Effect.Machine

variable {S : Sig} {ε σ : Type} {M : Machine S ε} {T : Protocol S σ} {init : M.Req → σ}
  {Q : σ → Prop}

/-- A process that ends with this event ends in a phase that meets `Q`. -/
def Finishes (T : Protocol S σ) (init : M.Req → σ) (Q : σ → Prop) (h : List M.Event)
    (e : M.Event) : Prop :=
  match e.act with
  | .started _ q false => Q (init q)
  | .did p o r false => ∀ g, phase T init h p = some g → Q (T.next g o r)
  | _ => True

/-- What is left of a process ends in a phase that meets `Q`. -/
def Ready (T : Protocol S σ) (init : M.Req → σ) (Q : σ → Prop) (c : M.Config) : Prop :=
  ∀ p prog, c.procs p = some prog →
    ∃ g, phase T init c.hist p = some g ∧ prog.wp T (fun _ => Q) g

theorem ends_of_isFinal {prog : Prog S ε Unit} {g : σ} (hg : prog.wp T (fun _ => Q) g)
    (hfin : prog.isFinal = true) : Q g := by
  cases prog with
  | ret a => exact hg
  | raise x => exact hg
  | op o k => cases hfin

/-- A process that acts, with what is left of it. -/
theorem Ready.advance {c : M.Config} (hc : Ready T init Q c) {p : Pid} {prog : Prog S ε Unit}
    {w : M.World} {act : Bool → M.Act} {g : σ} (hg : prog.wp T (fun _ => Q) g)
    (hpid : ∀ stays, (act stays).pid? = some p)
    (hself : ∀ w', phase T init (⟨c.world, act true, w'⟩ :: c.hist) p = some g) :
    Ready T init Q (c.advance p prog w act) := by
  intro p' prog' hprog'
  by_cases hp : p' = p
  · subst hp
    cases hfin : prog.isFinal with
    | true => simp [Config.advance, hfin] at hprog'
    | false =>
      simp only [Config.advance, hfin, Bool.not_false, if_true, Function.update_self,
        Option.some.injEq] at hprog'
      subst hprog'
      refine ⟨g, ?_, hg⟩
      simp only [Config.advance, hfin]
      exact hself _
  · simp only [Config.advance, Function.update_of_ne hp] at hprog'
    obtain ⟨g', hg', hwp⟩ := hc p' prog' hprog'
    refine ⟨g', ?_, hwp⟩
    rw [← hg']
    refine phase_of_other ?_
    rw [hpid]
    exact fun heq => hp (Option.some.inj heq).symm

theorem Ready.step {c c' : M.Config} {m : M.Move}
    (hprog : ∀ q, (M.program q).wp T (fun _ => Q) (init q)) (hc : Ready T init Q c)
    (hs : c.step m = some c') :
    Ready T init Q c' ∧ ∀ e, c'.hist = e :: c.hist → Finishes T init Q c.hist e := by
  cases m with
  | start p q =>
    simp only [Config.step] at hs
    split at hs
    · cases hs
      refine ⟨hc.advance (hprog q) (fun _ => rfl) fun w' => by simp [phase], fun e he => ?_⟩
      obtain rfl := List.head_eq_of_cons_eq he
      cases hfin : (M.program q).isFinal with
      | true =>
        have hend : Q (init q) := ends_of_isFinal (hprog q) hfin
        exact hend
      | false => trivial
    · cases hs
  | perform p ch =>
    simp only [Config.step] at hs
    split at hs
    · next o k hrun =>
      cases hs
      obtain ⟨g, hg, -, hk⟩ := hc p _ hrun
      have hnext := hk (M.perform c.world p o ch).2
      refine ⟨hc.advance hnext (fun _ => rfl) fun w' => by simp [phase, hg], fun e he => ?_⟩
      obtain rfl := List.head_eq_of_cons_eq he
      cases hfin : (k (M.perform c.world p o ch).2).isFinal with
      | true =>
        intro g' hg'
        obtain rfl := Option.some.inj (hg.symm.trans hg')
        exact ends_of_isFinal hnext hfin
      | false => trivial
    · cases hs
  | crash p =>
    simp only [Config.step] at hs
    split at hs
    · cases hs
      refine ⟨fun p' prog hrun => ?_, fun e he => ?_⟩
      · by_cases hp : p' = p
        · subst hp
          simp at hrun
        · simp only [Function.update_of_ne hp] at hrun
          obtain ⟨g, hg, hwp⟩ := hc p' prog hrun
          refine ⟨g, ?_, hwp⟩
          rw [← hg]
          exact phase_of_other fun heq => hp (Option.some.inj heq).symm
      · obtain rfl := List.head_eq_of_cons_eq he
        trivial
    · cases hs
  | tick t =>
    cases hs
    refine ⟨fun p prog hrun => ?_, fun e he => ?_⟩
    · obtain ⟨g, hg, hwp⟩ := hc p prog hrun
      exact ⟨g, by simpa [phase] using hg, hwp⟩
    · obtain rfl := List.head_eq_of_cons_eq he
      trivial

/-- **Processes end where their programs do**: the events of a run can be taken to say so. -/
theorem Reaches.finishing {Init : M.World → Prop} {K : List M.Event → M.Event → Prop}
    (hprog : ∀ q, (M.program q).wp T (fun _ => Q) (init q)) {c : M.Config}
    (h : Reaches M Init K c) :
    Reaches M Init (fun h e => K h e ∧ Finishes T init Q h e) c := by
  refine And.right (a := Ready T init Q c) ?_
  induction h with
  | init hw => exact ⟨fun p prog hrun => (by cases hrun), .init hw⟩
  | step _ hs hK ih =>
    obtain ⟨hready, hends⟩ := ih.1.step hprog hs
    exact ⟨hready, .step ih.2 hs fun e he => ⟨hK e he, hends e he⟩⟩

end Effect.Machine
