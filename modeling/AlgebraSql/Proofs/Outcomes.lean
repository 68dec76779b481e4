import AlgebraSql.Render.Node
import Mathlib.Data.List.Forall2

/-!
# Outcomes — what a rule of the renderer makes of the texts of its parts.

A rule puts texts together and leaves notices behind.  It fails only where a style lacks a construct and the caller
asks for complaints, and what it makes does not depend on the notices that were left before.
-/

namespace AlgebraSql.Render

variable {α β : Type}

/-- The rendering gives a value with the property, or fails where it may; either way it leaves the same notices
behind, whatever stands before them. -/
def Yields (mayFail : Prop) (m : RenderM α) (p : α → Prop) : Prop :=
  ∃ notices, (∃ a, p a ∧ ∀ log, m.run.run log = (.ok a, log ++ notices))
    ∨ mayFail ∧ ∃ e, ∀ log, m.run.run log = (.error e, log ++ notices)

/-- The caller asks for a complaint where a style lacks a construct. -/
def Setting.Complains (s : Setting) : Prop := s.options.unsupportedLevel = some .raise

section

variable {mayFail : Prop} {m : RenderM α} {f : α → RenderM β} {p : α → Prop} {q : β → Prop}

theorem yields_pure {a : α} (h : p a) : Yields mayFail (pure a) p :=
  ⟨[], Or.inl ⟨a, h, fun log => by rw [List.append_nil]; rfl⟩⟩

theorem Yields.mono (h : Yields mayFail m p) {r : α → Prop} (hr : ∀ a, p a → r a) : Yields mayFail m r := by
  obtain ⟨notices, ⟨a, ha, hrun⟩ | hfail⟩ := h
  · exact ⟨notices, Or.inl ⟨a, hr a ha, hrun⟩⟩
  · exact ⟨notices, Or.inr hfail⟩

theorem run_bind (m : RenderM α) (f : α → RenderM β) (log : List Notice) :
    (m >>= f).run.run log = match m.run.run log with
      | (.ok a, log) => (f a).run.run log
      | (.error e, log) => (.error e, log) := by
  simp only [ExceptT.run, StateT.run, bind, ExceptT.bind, ExceptT.mk, StateT.bind, ExceptT.bindCont]
  cases m log with
  | mk result log => cases result <;> rfl

/-- A rendering that goes on with the value of another. -/
theorem Yields.bind (h : Yields mayFail m p) (hf : ∀ a, p a → Yields mayFail (f a) q) :
    Yields mayFail (m >>= f) q := by
  obtain ⟨before, ⟨a, ha, hrun⟩ | ⟨hfail, e, hrun⟩⟩ := h
  · obtain ⟨after, ⟨b, hb, hnext⟩ | ⟨hfail, e, hnext⟩⟩ := hf a ha
    · refine ⟨before ++ after, Or.inl ⟨b, hb, fun log => ?_⟩⟩
      rw [run_bind, hrun, ← List.append_assoc]
      exact hnext _
    · refine ⟨before ++ after, Or.inr ⟨hfail, e, fun log => ?_⟩⟩
      rw [run_bind, hrun, ← List.append_assoc]
      exact hnext _
  · refine ⟨before, Or.inr ⟨hfail, e, fun log => ?_⟩⟩
    rw [run_bind, hrun]

/-- One of two renderings, and what goes on with its value. -/
theorem Yields.bind_ite {c : Prop} [Decidable c] {m' : RenderM α} (h : Yields mayFail (if c then m else m') p)
    (hf : ∀ a, p a → Yields mayFail (f a) q) : Yields mayFail (if c then m >>= f else m' >>= f) q := by
  have hbind := h.bind hf
  split at hbind <;> rename_i hc
  · rwa [if_pos hc]
  · rwa [if_neg hc]

/-- A rendering followed by a function of its value. -/
theorem Yields.map (h : Yields mayFail m p) {g : α → β} (hg : ∀ a, p a → q (g a)) :
    Yields mayFail (do return g (← m)) q :=
  h.bind fun a ha => yields_pure (hg a ha)

/-- A value that is given has the property. -/
theorem Yields.of_run (h : Yields mayFail m p) {a : α} {log log' : List Notice} (hrun : m.run.run log = (.ok a, log')) :
    p a := by
  obtain ⟨notices, ⟨b, hb, hall⟩ | ⟨-, e, hall⟩⟩ := h
  · rw [hall] at hrun
    cases hrun
    exact hb
  · rw [hall] at hrun
    cases hrun

/-- A value with both of two properties. -/
theorem Yields.and {r : α → Prop} (h : Yields mayFail m p) (hr : Yields mayFail m r) :
    Yields mayFail m fun a => p a ∧ r a := by
  obtain ⟨notices, ⟨a, ha, hrun⟩ | hfail⟩ := h
  · exact ⟨notices, Or.inl ⟨a, ⟨ha, hr.of_run (hrun [])⟩, hrun⟩⟩
  · exact ⟨notices, Or.inr hfail⟩

/-- The value is what the rendering gives when it starts afresh. -/
theorem Yields.afresh (h : Yields mayFail m p) :
    Yields mayFail m fun a => p a ∧ ∃ notices, m.run.run [] = (.ok a, notices) := by
  obtain ⟨notices, ⟨a, ha, hrun⟩ | hfail⟩ := h
  · exact ⟨notices, Or.inl ⟨a, ⟨ha, [] ++ notices, hrun []⟩, hrun⟩⟩
  · exact ⟨notices, Or.inr hfail⟩

/-- A rendering for each entry of a list. -/
theorem yields_mapM {r : α → β → Prop} :
    ∀ {as : List α}, (∀ a ∈ as, Yields mayFail (f a) (r a)) → Yields mayFail (as.mapM f) (List.Forall₂ r as)
  | [], _ => by
    rw [List.mapM_nil]
    exact yields_pure .nil
  | a :: as, h => by
    rw [List.mapM_cons]
    refine (h a List.mem_cons_self).bind fun b hb => ?_
    refine (yields_mapM fun c hc => h c (List.mem_cons_of_mem _ hc)).bind fun bs hbs => ?_
    exact yields_pure (.cons hb hbs)

/-- The same, for a property of all values. -/
theorem yields_forall {as : List α} (h : ∀ a ∈ as, Yields mayFail (f a) q) :
    Yields mayFail (as.mapM f) fun bs => ∀ b ∈ bs, q b := by
  refine (yields_mapM (r := fun _ b => q b) h).mono fun bs hbs => ?_
  induction hbs with
  | nil => simp
  | cons hb _ ih => exact List.forall_mem_cons.mpr ⟨hb, ih fun a ha => h a (List.mem_cons_of_mem _ ha)⟩

theorem yields_notify (notice : Notice) : Yields mayFail (notify notice) fun _ => True :=
  ⟨[notice], Or.inl ⟨(), trivial, fun _ => rfl⟩⟩

/-- A complaint is a failure if the caller asks for one. -/
theorem yields_unsupported (s : Setting) (construct : String) :
    Yields s.Complains (s.unsupported construct) fun _ => True := by
  unfold Setting.unsupported
  split
  · rename_i h
    have hraise : s.Complains := by
      unfold Setting.Complains
      cases hlevel : s.options.unsupportedLevel with
      | none => rw [hlevel] at h; cases h
      | some level => rw [hlevel] at h; cases h; rfl
    exact ⟨[], Or.inr ⟨hraise, _, fun log => by rw [List.append_nil]; rfl⟩⟩
  · exact yields_pure trivial
  · exact yields_notify _

/-- Where nothing may fail there is a value. -/
theorem Yields.value (h : Yields mayFail m p) (hnever : ¬ mayFail) :
    ∃ a notices, p a ∧ ∀ log, m.run.run log = (.ok a, log ++ notices) := by
  obtain ⟨notices, ⟨a, ha, hrun⟩ | ⟨hfail, -⟩⟩ := h
  · exact ⟨a, notices, ha, hrun⟩
  · exact absurd hfail hnever

end

end AlgebraSql.Render
