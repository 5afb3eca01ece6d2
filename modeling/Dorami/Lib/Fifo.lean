import Dorami.Lib.Run
import Mathlib.Logic.Relation

/-!
# A first-come-first-served lock

The lock as its users are to see it. A party queues up with a section, a list of small steps on the
shared data; the first of the queue goes in when nobody is inside, carries out its section step by
step and leaves. Nothing else touches the data, so the sections take effect one after the other, in
the order in which the parties queued up.
-/

namespace Dorami.Lib

variable {H δ : Type*}

/-- The small steps of a section, one after the other. -/
def perform (steps : List (δ → δ)) (d : δ) : δ := steps.foldl (fun d f => f d) d

theorem perform_append (s t : List (δ → δ)) (d : δ) :
    perform (s ++ t) d = perform t (perform s d) := List.foldl_append

/-- A lock with its queue and the data it guards. -/
structure Fifo (H δ : Type*) where
  waiting : List (H × List (δ → δ))
  /-- The party inside, with what is left of its section. -/
  inside : Option (H × List (δ → δ))
  data : δ
  /-- The parties that have queued up so far, in order. -/
  taken : List H
  /-- The parties that have gone in so far with their sections, in order. -/
  entered : List (H × List (δ → δ))

namespace Fifo

/-- Nobody has come yet. -/
def start (d : δ) : Fifo H δ := ⟨[], none, d, [], []⟩

variable {s t : Fifo H δ}

inductive Step : Fifo H δ → Fifo H δ → Prop where
  | take (s : Fifo H δ) (h : H) (steps : List (δ → δ)) :
      Step s { s with waiting := s.waiting ++ [(h, steps)], taken := s.taken ++ [h] }
  | enter {s : Fifo H δ} {p : H × List (δ → δ)} {rest : List (H × List (δ → δ))}
      (hfree : s.inside = none) (hhead : s.waiting = p :: rest) :
      Step s { s with waiting := rest, inside := some p, entered := s.entered ++ [p] }
  | work {s : Fifo H δ} {h : H} {f : δ → δ} {fs : List (δ → δ)}
      (hin : s.inside = some (h, f :: fs)) :
        Step s { s with data := f s.data, inside := some (h, fs) }
  | release {s : Fifo H δ} {h : H} (hin : s.inside = some (h, [])) :
      Step s { s with inside := none }

/-- The party inside, if there is one, and those that wait. -/
def parties (s : Fifo H δ) : List H := (s.inside.toList ++ s.waiting).map Prod.fst

/-- What is still to be done by the party inside. -/
def pending (s : Fifo H δ) : List (δ → δ) := (s.inside.map Prod.snd).getD []

/-- The queue is served in order, and the sections take effect one after the other. -/
structure Orderly (d : δ) (s : Fifo H δ) : Prop where
  order : s.taken = s.entered.map Prod.fst ++ s.waiting.map Prod.fst
  serial : perform s.pending s.data = perform (s.entered.map Prod.snd).flatten d

theorem orderly_start (d : δ) : Orderly d (start d : Fifo H δ) := ⟨rfl, rfl⟩

theorem Orderly.step {d : δ} (ho : Orderly d s) (hs : Step s t) : Orderly d t := by
  cases hs with
  | take h steps =>
    refine ⟨?_, ho.serial⟩
    rw [ho.order, List.map_append, List.append_assoc]
    rfl
  | @enter p rest hfree hhead =>
    constructor
    · rw [ho.order, hhead, List.map_append, List.append_assoc]
      rfl
    · -- so far nothing was left to be done; now the new section is
      have hser := ho.serial
      rw [pending, hfree] at hser
      rw [List.map_append, List.flatten_append, perform_append, ← hser]
      show perform p.2 s.data = perform ([p.2].flatten) s.data
      rw [List.flatten_singleton]
  | work hin =>
    refine ⟨ho.order, ?_⟩
    have hser := ho.serial
    rw [pending, hin] at hser
    exact hser
  | release hin =>
    refine ⟨ho.order, ?_⟩
    have hser := ho.serial
    rw [pending, hin] at hser
    exact hser

/-- The states the lock can come to. -/
def Reachable (d : δ) (s : Fifo H δ) : Prop := Relation.ReflTransGen Step (start d) s

theorem Reachable.orderly {d : δ} (hr : Reachable d s) : Orderly d s := by
  induction hr with
  | refl => exact orderly_start d
  | tail _ hs ih => exact ih.step hs

end Fifo

end Dorami.Lib
