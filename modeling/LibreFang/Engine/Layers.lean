import LibreFang.Engine.Dag
import LibreFang.Lib.Layering
import LibreFang.Lib.Table

/-!
# The layers of a workflow

`topological_sort` puts the steps into layers.

* `DependsOn`: a step names another one in its `depends_on`; `mem_depsOf_iff`: the graph has it.
* `Kahn.Sound`: what holds before every pass of the loop; **`Sound.pass`**: a pass keeps it.
* **`topologicalSort_correct`**: it succeeds exactly without cycles, in layers that hold every step
  once behind the steps it depends on, and no subtraction is refused.
-/

namespace LibreFang.Engine

open Layering

/-! ## The graph -/

/-- The step at `i` names the step at `j` among those it depends on. -/
def DependsOn (steps : List WorkflowStep) (i j : ℕ) : Prop :=
  ∃ step dep, steps[i]? = some step ∧ steps[j]? = some dep ∧ dep.name ∈ step.dependsOn

section Graph

variable {names : List (String × ℕ)} {step : WorkflowStep} {steps : List WorkflowStep}

theorem nameToIdx_eq {seen : List (String × ℕ)} (i : ℕ)
    (hnew : ((steps.map (·.name)).reverse ++ seen.map (·.1)).Nodup) : nameToIdx i seen steps =
      .ok (((steps.zipIdx i).map fun e => (e.1.name, e.2)).reverse ++ seen) := by
  induction steps generalizing i seen with
  | nil => rfl
  | cons step steps ih =>
    have hshift : (step :: steps).map (·.name) = step.name :: steps.map (·.name) := rfl
    rw [hshift, List.reverse_cons, List.append_assoc, List.singleton_append] at hnew
    have hnone : seen.lookup step.name = none := by
      rw [List.lookup_eq_none_iff]
      intro e he
      have hnot := (List.nodup_cons.mp (List.nodup_append.mp hnew).2.1).1
      rw [bne_iff_ne]
      exact fun heq => hnot (heq ▸ List.mem_map_of_mem he)
    have hrest := @ih ((step.name, i) :: seen) (i + 1) hnew
    rw [nameToIdx, hnone]
    dsimp only
    rw [hrest, List.zipIdx_cons, List.map_cons, List.reverse_cons, List.append_assoc,
      List.singleton_append]

theorem nameToIdx_ok (hunique : (steps.map (·.name)).Nodup) :
    ∃ names, nameToIdx 0 [] steps = .ok names ∧ ∀ name j, names.lookup name = some j ↔
      ∃ step, steps[j]? = some step ∧ step.name = name := by
  have hnew : ((steps.map (·.name)).reverse ++ [].map (Prod.fst (α := String) (β := ℕ))).Nodup := by
    rw [List.map_nil, List.append_nil]
    exact List.nodup_reverse.mpr hunique
  refine ⟨_, nameToIdx_eq 0 hnew, fun name j => ?_⟩
  rw [List.append_nil, Table.lookup_iff_mem, List.mem_reverse, List.mem_map]
  · constructor
    · rintro ⟨e, he, heq⟩
      cases heq
      exact ⟨e.1, List.mem_zipIdx_iff_getElem?.mp he, rfl⟩
    · rintro ⟨step, hstep, rfl⟩
      exact ⟨(step, j), List.mem_zipIdx_iff_getElem?.mpr hstep, rfl⟩
  · have hnames : (steps.zipIdx.map fun e => (e.1.name, e.2)).map (·.1) = steps.map (·.name) := by
      rw [List.map_map, ← List.zipIdx_map_fst 0 steps, List.map_map]
      rw [List.zipIdx_map_fst]
      rfl
    rw [List.map_reverse, hnames]
    exact List.nodup_reverse.mpr hunique

theorem dependencyIndices_ok {depNames : List String}
    (hexist : ∀ name ∈ depNames, (names.lookup name).isSome) :
    ∃ deps, dependencyIndices names step depNames = .ok deps ∧
      ∀ j, j ∈ deps ↔ ∃ name ∈ depNames, names.lookup name = some j := by
  induction depNames with
  | nil => exact ⟨[], rfl, fun j => by simp⟩
  | cons name rest ih =>
    obtain ⟨i, hi⟩ := Option.isSome_iff_exists.mp (hexist name List.mem_cons_self)
    obtain ⟨deps, hdeps, hmem⟩ := ih fun name h => hexist name (List.mem_cons_of_mem _ h)
    refine ⟨i :: deps, by rw [dependencyIndices, hi, hdeps], fun j => ?_⟩
    rw [List.mem_cons, hmem, List.exists_mem_cons_iff, hi, Option.some.injEq, eq_comm]

theorem dependencyRows_ok
    (hexist : ∀ step ∈ steps, ∀ name ∈ step.dependsOn, (names.lookup name).isSome) :
    ∃ graph, dependencyRows names steps = .ok graph ∧ graph.length = steps.length ∧
      ∀ i j, j ∈ depsOf graph i ↔ ∃ step, steps[i]? = some step ∧
        ∃ name ∈ step.dependsOn, names.lookup name = some j := by
  induction steps with
  | nil => exact ⟨[], rfl, rfl, fun i j => by simp [depsOf]⟩
  | cons step steps ih =>
    obtain ⟨deps, hdeps, hmem⟩ := dependencyIndices_ok (hexist step List.mem_cons_self)
    obtain ⟨graph, hgraph, hlen, hrows⟩ := ih fun step h => hexist step (List.mem_cons_of_mem _ h)
    refine ⟨deps :: graph, by rw [dependencyRows, hdeps, hgraph], by simp [hlen], fun i j => ?_⟩
    cases i with
    | zero => simpa [depsOf] using hmem j
    | succ i => simpa [depsOf] using hrows i j

theorem buildDependencyGraph_ok (hunique : (steps.map (·.name)).Nodup)
    (hexist : ∀ step ∈ steps, ∀ name ∈ step.dependsOn, name ∈ steps.map (·.name)) :
    ∃ graph, buildDependencyGraph steps = .ok graph ∧ graph.length = steps.length ∧
      ∀ i j, j ∈ depsOf graph i ↔ DependsOn steps i j := by
  obtain ⟨names, hnames, hlookup⟩ := nameToIdx_ok hunique
  have hknown : ∀ step ∈ steps, ∀ name ∈ step.dependsOn, (names.lookup name).isSome := by
    intro step hstep name hname
    obtain ⟨dep, hdep, rfl⟩ := List.mem_map.mp (hexist step hstep name hname)
    obtain ⟨j, hj⟩ := List.getElem?_of_mem hdep
    rw [(hlookup dep.name j).mpr ⟨dep, hj, rfl⟩]
    rfl
  obtain ⟨graph, hgraph, hlen, hrows⟩ := dependencyRows_ok hknown
  refine ⟨graph, by rw [buildDependencyGraph, hnames]; exact hgraph, hlen, fun i j => ?_⟩
  rw [hrows]
  constructor
  · rintro ⟨step, hstep, name, hname, hj⟩
    obtain ⟨dep, hdep, rfl⟩ := (hlookup name j).mp hj
    exact ⟨step, dep, hstep, hdep, hname⟩
  · rintro ⟨step, dep, hstep, hdep, hname⟩
    exact ⟨step, hstep, dep.name, hname, (hlookup _ j).mpr ⟨dep, hdep, rfl⟩⟩

end Graph

/-! ## Counting -/

variable {graph : List (List ℕ)} {order : List ℕ} {k : Kahn}

/-- **A step is released once for every time it names the one that is taken.** -/
theorem count_dependentsOf (horder : order.Perm (List.range graph.length)) (node v : ℕ) :
    (dependentsOf graph order node).count v = (depsOf graph v).count node := by
  have hnodup : order.Nodup := horder.nodup_iff.mpr List.nodup_range
  have hzero : v ∉ order → (depsOf graph v).count node = 0 := by
    intro hv
    have hlen : graph.length ≤ v := by
      rw [horder.mem_iff, List.mem_range] at hv
      exact Nat.le_of_not_lt hv
    rw [depsOf, List.getD_eq_getElem?_getD, List.getElem?_eq_none hlen]
    rfl
  unfold dependentsOf
  clear horder
  induction order with
  | nil => exact (hzero List.not_mem_nil).symm
  | cons u order ih =>
    obtain ⟨hu, hnodup⟩ := List.nodup_cons.mp hnodup
    rw [List.flatMap_cons, List.count_append, List.count_replicate]
    by_cases huv : u = v
    · subst huv
      have hrest : (order.flatMap fun w => List.replicate ((depsOf graph w).count node) w).count u =
          0 := by
        rw [List.count_eq_zero, List.mem_flatMap]
        rintro ⟨w, hw, hmem⟩
        exact hu (List.eq_of_mem_replicate hmem ▸ hw)
      rw [hrest, if_pos (beq_self_eq_true u), Nat.add_zero]
    · rw [if_neg (by simpa using huv), Nat.zero_add]
      exact ih hnodup fun hv => hzero fun hmem => hv ((List.mem_cons.mp hmem).resolve_left
        (Ne.symm huv))

theorem count_flatMap_dependentsOf (horder : order.Perm (List.range graph.length)) {layer : List ℕ}
    (hlayer : layer.Nodup) (v : ℕ) : (layer.flatMap (dependentsOf graph order)).count v =
      (depsOf graph v).countP (· ∈ layer) := by
  induction layer with
  | nil => simp
  | cons node layer ih =>
    obtain ⟨hnode, hlayer⟩ := List.nodup_cons.mp hlayer
    rw [List.flatMap_cons, List.count_append, count_dependentsOf horder, ih hlayer]
    generalize depsOf graph v = deps
    induction deps with
    | nil => rfl
    | cons d deps ihd =>
      rw [List.count_cons, List.countP_cons, List.countP_cons, ← ihd]
      by_cases hd : d = node
      · subst hd
        rw [if_pos (beq_self_eq_true d), if_neg (by simpa using hnode), if_pos (by simp)]
        omega
      · rw [if_neg (by simpa using hd)]
        simp only [List.mem_cons, hd, false_or]
        omega

theorem release_of_pos {d : ℕ} (h : 0 < k.inDegree d) : k.release d =
    ⟨fun v => k.inDegree v - [d].count v, k.queue ++ if k.inDegree d = 1 then [d] else [],
      k.layers, k.processed⟩ := by
  have hdegree : Function.update k.inDegree d (decrement (k.inDegree d)) =
      fun v => k.inDegree v - [d].count v := by
    funext v
    rw [decrement, if_neg (Nat.ne_of_gt h)]
    by_cases hv : v = d
    · subst hv
      simp
    · simp [hv, Ne.symm hv]
  unfold Kahn.release
  dsimp only
  rw [hdegree]
  simp only [List.count_singleton_self]
  by_cases hone : k.inDegree d = 1
  · rw [if_pos (by omega), if_pos hone]
  · rw [if_neg (by omega), if_neg hone, List.append_nil]

theorem foldl_release (released : List ℕ) (h : ∀ v, released.count v ≤ k.inDegree v) :
    ∃ news, released.foldl Kahn.release k =
        ⟨fun v => k.inDegree v - released.count v, k.queue ++ news, k.layers, k.processed⟩ ∧
      news.Nodup ∧ ∀ v, v ∈ news ↔ v ∈ released ∧ k.inDegree v = released.count v := by
  induction released generalizing k with
  | nil => exact ⟨[], by simp, List.nodup_nil, by simp⟩
  | cons d released ih =>
    have hcount (v : ℕ) : (d :: released).count v = [d].count v + released.count v := by
      rw [← List.count_append]
      rfl
    have hself : [d].count d = 1 := List.count_singleton_self
    have hd := h d
    rw [hcount, hself] at hd
    rw [List.foldl_cons, release_of_pos (by omega)]
    obtain ⟨news, hfold, hnodup, hmem⟩ := @ih ⟨fun v => k.inDegree v - [d].count v,
      k.queue ++ if k.inDegree d = 1 then [d] else [], k.layers, k.processed⟩ fun v => by
        have hv := h v
        rw [hcount] at hv
        dsimp only
        omega
    dsimp only at hmem
    refine ⟨(if k.inDegree d = 1 then [d] else []) ++ news, ?_, ?_, fun v => ?_⟩
    · rw [hfold, List.append_assoc]
      congr 1
      funext v
      rw [hcount]
      exact Nat.sub_sub _ _ _
    · split_ifs with hone
      · refine List.nodup_cons.mpr ⟨fun hmem' => ?_, hnodup⟩
        obtain ⟨hreleased, heq⟩ := (hmem d).mp hmem'
        have hpos := List.count_pos_iff.mpr hreleased
        omega
      · exact hnodup
    · have hv := h v
      rw [hcount] at hv
      rw [List.mem_append, hmem, hcount, List.mem_cons]
      by_cases hvd : v = d
      · subst hvd
        have hpos : v ∈ released ↔ 0 < released.count v := List.count_pos_iff.symm
        rw [hpos, hself]
        split_ifs with hone
        · rw [List.mem_singleton]
          omega
        · simp only [List.not_mem_nil, false_or, true_or, true_and]
          omega
      · have hzero : [d].count v = 0 := by simp [Ne.symm hvd]
        have hnot : v ∉ if k.inDegree d = 1 then [d] else [] := by
          split_ifs <;> simp [hvd]
        rw [hzero, Nat.sub_zero, Nat.zero_add]
        simp only [hnot, hvd, false_or]

/-! ## One pass of the loop -/

theorem release_processed (k : Kahn) (n d : ℕ) :
    ({ k with processed := n } : Kahn).release d = { k.release d with processed := n } := by
  unfold Kahn.release
  dsimp only
  split_ifs <;> rfl

theorem foldl_release_processed (released : List ℕ) (k : Kahn) (n : ℕ) :
    released.foldl Kahn.release { k with processed := n } =
      { released.foldl Kahn.release k with processed := n } := by
  induction released generalizing k with
  | nil => rfl
  | cons d released ih => rw [List.foldl_cons, List.foldl_cons, release_processed, ih]

theorem foldl_take (dependents : ℕ → List ℕ) (layer : List ℕ) (k : Kahn) :
    layer.foldl (Kahn.take dependents) k =
      { (layer.flatMap dependents).foldl Kahn.release k with
        processed := k.processed + layer.length } := by
  induction layer generalizing k with
  | nil => rfl
  | cons node layer ih =>
    have htake : Kahn.take dependents k node =
        { (dependents node).foldl Kahn.release k with processed := k.processed + 1 } :=
      foldl_release_processed ..
    have hlen : k.processed + (node :: layer).length = k.processed + 1 + layer.length := by
      rw [List.length_cons]
      omega
    rw [List.foldl_cons, ih, htake, foldl_release_processed, List.flatMap_cons, List.foldl_append,
      hlen]

/-- What holds before every pass: the counters count what is not taken yet, and the queue holds the
steps that wait for nothing. -/
structure Kahn.Sound (graph : List (List ℕ)) (k : Kahn) : Prop where
  inDegree : ∀ v, k.inDegree v = (depsOf graph v).countP (· ∉ k.layers.flatten)
  nodup : (k.layers.flatten ++ k.queue).Nodup
  processed : k.processed = k.layers.flatten.length
  queue : ∀ v, v ∈ k.queue ↔
    v < graph.length ∧ v ∉ k.layers.flatten ∧ ∀ d ∈ depsOf graph v, d ∈ k.layers.flatten
  lt : ∀ v ∈ k.layers.flatten, v < graph.length
  layered : Layered (fun i j => j ∈ depsOf graph i) k.layers

theorem lt_of_mem_depsOf {i j : ℕ} (h : j ∈ depsOf graph i) : i < graph.length := by
  by_contra hle
  rw [depsOf, List.getD_eq_getElem?_getD, List.getElem?_eq_none (Nat.le_of_not_lt hle)] at h
  cases h

theorem sound_start (graph : List (List ℕ)) : (Kahn.start graph).Sound graph where
  inDegree v := by simp [Kahn.start]
  nodup := List.nodup_range.filter _
  processed := rfl
  queue v := by simp [Kahn.start, List.eq_nil_iff_forall_not_mem]
  lt := nofun
  layered := layered_nil

theorem countP_notMem_eq {done layer : List ℕ} (h : (done ++ layer).Nodup) (deps : List ℕ) :
    deps.countP (· ∉ done) = deps.countP (· ∈ layer) + deps.countP (· ∉ done ++ layer) := by
  induction deps with
  | nil => rfl
  | cons d deps ih =>
    have hapart : d ∈ done → d ∉ layer := fun hd hl =>
      (List.nodup_append.mp h).2.2 d hd d hl rfl
    rw [List.countP_cons, List.countP_cons, List.countP_cons, ih]
    by_cases hd : d ∈ done
    · simp [hd, hapart hd]
    · by_cases hl : d ∈ layer <;> simp [hd, hl] <;> omega

theorem Kahn.Sound.count_le (h : k.Sound graph) (horder : order.Perm (List.range graph.length))
    (v : ℕ) : (k.queue.flatMap (dependentsOf graph order)).count v ≤ k.inDegree v := by
  rw [count_flatMap_dependentsOf horder (List.nodup_append.mp h.nodup).2.1, h.inDegree,
    countP_notMem_eq h.nodup]
  exact Nat.le_add_right _ _

/-- The loop after a pass. -/
def Kahn.pass (dependents : ℕ → List ℕ) (k : Kahn) : Kahn :=
  let k' := k.queue.foldl (Kahn.take dependents) { k with queue := [] }
  { k' with layers := k'.layers ++ [k.queue] }

/-- **A pass takes all of the queue, and queues what waited for nothing else.** -/
theorem Kahn.Sound.pass (h : k.Sound graph) (horder : order.Perm (List.range graph.length)) :
    (k.pass (dependentsOf graph order)).Sound graph ∧
      (k.pass (dependentsOf graph order)).processed = k.processed + k.queue.length := by
  have hqueue : k.queue.Nodup := (List.nodup_append.mp h.nodup).2.1
  obtain ⟨news, hfold, hnodup, hnews⟩ :=
    @foldl_release { k with queue := [] } (k.queue.flatMap (dependentsOf graph order))
      (h.count_le horder)
  have hpass : k.pass (dependentsOf graph order) =
      ⟨fun v => k.inDegree v - (k.queue.flatMap (dependentsOf graph order)).count v, news,
        k.layers ++ [k.queue], k.processed + k.queue.length⟩ := by
    unfold Kahn.pass
    dsimp only
    rw [foldl_take, hfold]
    rfl
  have hflatten : (k.layers ++ [k.queue]).flatten = k.layers.flatten ++ k.queue := by
    rw [List.flatten_append, List.flatten_singleton]
  have hdeps (v : ℕ) := countP_notMem_eq h.nodup (depsOf graph v)
  have hcount (v : ℕ) := count_flatMap_dependentsOf horder hqueue v
  have hclosed (v : ℕ) (hv : v ∈ k.layers.flatten ++ k.queue) (d : ℕ) (hd : d ∈ depsOf graph v) :
      d ∈ k.layers.flatten := by
    rcases List.mem_append.mp hv with hv | hv
    · exact h.layered.mem_flatten hv hd
    · exact ((h.queue v).mp hv).2.2 d hd
  have hmem (v : ℕ) : v ∈ news ↔ v < graph.length ∧ v ∉ k.layers.flatten ++ k.queue ∧
      ∀ d ∈ depsOf graph v, d ∈ k.layers.flatten ++ k.queue := by
    have hzero : k.inDegree v = (k.queue.flatMap (dependentsOf graph order)).count v ↔
        ∀ d ∈ depsOf graph v, d ∈ k.layers.flatten ++ k.queue := by
      rw [h.inDegree, hdeps, hcount, Nat.add_eq_left, List.countP_eq_zero]
      simp only [decide_eq_true_eq, not_not]
    have hpos : v ∈ k.queue.flatMap (dependentsOf graph order) ↔
        ∃ d ∈ depsOf graph v, d ∈ k.queue := by
      rw [← List.count_pos_iff, hcount, List.countP_pos_iff]
      simp only [decide_eq_true_eq]
    rw [hnews, hzero, hpos]
    constructor
    · rintro ⟨⟨d, hd, hdqueue⟩, hall⟩
      refine ⟨lt_of_mem_depsOf hd, fun hv => ?_, hall⟩
      exact (List.nodup_append.mp h.nodup).2.2 d (hclosed v hv d hd) d hdqueue rfl
    · rintro ⟨hlt, hnot, hall⟩
      refine ⟨?_, hall⟩
      by_contra hnone
      push Not at hnone
      refine hnot (List.mem_append_right _ ((h.queue v).mpr
        ⟨hlt, fun hv => hnot (List.mem_append_left _ hv), fun d hd => ?_⟩))
      exact (List.mem_append.mp (hall d hd)).resolve_right (hnone d hd)
  rw [hpass]
  refine ⟨⟨fun v => ?_, ?_, ?_, fun v => ?_, fun v hv => ?_, ?_⟩, rfl⟩
  · change k.inDegree v - _ = _
    rw [hflatten, hcount, h.inDegree, hdeps, Nat.add_sub_cancel_left]
  · rw [hflatten, List.nodup_append]
    refine ⟨h.nodup, hnodup, fun a ha b hb hab => ?_⟩
    exact ((hmem b).mp hb).2.1 (hab ▸ ha)
  · change k.processed + k.queue.length = _
    rw [hflatten, List.length_append, h.processed]
  · rw [hflatten]
    exact hmem v
  · rw [hflatten] at hv
    rcases List.mem_append.mp hv with hv | hv
    · exact h.lt v hv
    · exact ((h.queue v).mp hv).1
  · exact h.layered.concat fun v hv d hd => ((h.queue v).mp hv).2.2 d hd

/-! ## The whole loop -/

theorem passes_succ (dependents : ℕ → List ℕ) (n : ℕ) (k : Kahn) :
    k.passes dependents (n + 1) =
      if k.queue = [] then k else (k.pass dependents).passes dependents n :=
  rfl

theorem Kahn.Sound.passes (h : k.Sound graph) (horder : order.Perm (List.range graph.length))
    (n : ℕ) : (k.passes (dependentsOf graph order) n).Sound graph := by
  induction n generalizing k with
  | zero => exact h
  | succ n ih =>
    rw [passes_succ]
    split_ifs
    · exact h
    · exact ih (h.pass horder).1

theorem Kahn.Sound.processed_le (h : k.Sound graph) : k.processed ≤ graph.length := by
  rw [h.processed, ← List.length_range (n := graph.length)]
  exact ((List.nodup_append.mp h.nodup).1.subperm fun v hv =>
    List.mem_range.mpr (h.lt v hv)).length_le

theorem Kahn.Sound.queue_passes (h : k.Sound graph)
    (horder : order.Perm (List.range graph.length)) {n : ℕ} (hn : graph.length < n + k.processed) :
    (k.passes (dependentsOf graph order) n).queue = [] := by
  induction n generalizing k with
  | zero =>
    have hle := h.processed_le
    omega
  | succ n ih =>
    rw [passes_succ]
    split_ifs with hempty
    · exact hempty
    · obtain ⟨hsound, hprocessed⟩ := h.pass horder
      have hpos := List.length_pos_iff.mpr hempty
      exact ih hsound (by omega)

theorem processed_eq_iff (h : k.Sound graph) (hempty : k.queue = [])
    (hclosed : ∀ i, ∀ j ∈ depsOf graph i, j < graph.length) :
    k.processed = graph.length ↔ Acyclic fun i j => j ∈ depsOf graph i := by
  have hnodup : k.layers.flatten.Nodup := (List.nodup_append.mp h.nodup).1
  rw [h.processed]
  constructor
  · intro hlen
    have hperm := (List.subperm_of_subset hnodup fun v hv =>
      List.mem_range.mpr (h.lt v hv)).perm_of_length_le (by rw [List.length_range, hlen])
    exact h.layered.acyclic fun i j hij =>
      hperm.mem_iff.mpr (List.mem_range.mpr (lt_of_mem_depsOf hij))
  · intro hacyclic
    have hall : ∀ v ∈ List.range graph.length, v ∈ k.layers.flatten := by
      by_contra hrest
      push Not at hrest
      obtain ⟨v, hv, hnot, hready⟩ := @exists_ready ℕ _ _ hacyclic (List.range graph.length)
        (fun i _ j hij => List.mem_range.mpr (hclosed i j hij)) {v | v ∈ k.layers.flatten} hrest
      have hqueue := (h.queue v).mpr ⟨List.mem_range.mp hv, hnot, hready⟩
      rw [hempty] at hqueue
      cases hqueue
    have hle := (List.subperm_of_subset List.nodup_range hall).length_le
    have hge := h.processed_le
    rw [List.length_range] at hle
    rw [h.processed] at hge
    exact Nat.le_antisymm hge hle

/-! ## Subtractions that are refused below zero -/

/-- `Kahn.release`, unless the counter is zero. -/
def Kahn.releaseChecked (k : Kahn) (dependent : ℕ) : Option Kahn :=
  if k.inDegree dependent = 0 then none else some (k.release dependent)

/-- `Kahn.take` with these. -/
def Kahn.takeChecked (dependents : ℕ → List ℕ) (k : Kahn) (node : ℕ) : Option Kahn :=
  (dependents node).foldlM Kahn.releaseChecked { k with processed := k.processed + 1 }

/-- `Kahn.passes` with these. -/
def Kahn.passesChecked (dependents : ℕ → List ℕ) : ℕ → Kahn → Option Kahn
  | 0, k => some k
  | n + 1, k =>
    if k.queue = [] then some k
    else
      match k.queue.foldlM (Kahn.takeChecked dependents) { k with queue := [] } with
      | some k' => Kahn.passesChecked dependents n { k' with layers := k'.layers ++ [k.queue] }
      | none => none

/-- `topological_sort` with overflow checks: nothing if a counter falls below zero. -/
def topologicalSortChecked (order : List ℕ) (steps : List WorkflowStep) :
    Option (Except String (List (List ℕ))) :=
  match buildDependencyGraph steps with
  | .error e => some (.error e)
  | .ok graph =>
    match Kahn.passesChecked (dependentsOf graph order) (graph.length + 1) (.start graph) with
    | none => none
    | some ended =>
      if ended.processed ≠ steps.length then
        some (.error "Cycle detected in workflow step dependencies")
      else some (.ok ended.layers)

theorem foldlM_releaseChecked (released : List ℕ) (h : ∀ v, released.count v ≤ k.inDegree v) :
    released.foldlM Kahn.releaseChecked k = some (released.foldl Kahn.release k) := by
  induction released generalizing k with
  | nil => rfl
  | cons d released ih =>
    have hd := h d
    rw [List.count_cons_self] at hd
    rw [List.foldlM_cons, Kahn.releaseChecked, if_neg (by omega), Option.bind_eq_bind,
      Option.bind_some, List.foldl_cons]
    refine ih fun v => ?_
    have hv := h v
    rw [release_of_pos (by omega)]
    dsimp only
    rw [List.count_cons] at hv
    rw [List.count_singleton]
    split_ifs at hv ⊢ <;> omega

theorem foldlM_takeChecked (dependents : ℕ → List ℕ) (layer : List ℕ)
    (h : ∀ v, (layer.flatMap dependents).count v ≤ k.inDegree v) :
    layer.foldlM (Kahn.takeChecked dependents) k = some (layer.foldl (Kahn.take dependents) k) := by
  induction layer generalizing k with
  | nil => rfl
  | cons node layer ih =>
    simp only [List.flatMap_cons, List.count_append] at h
    have hnode : ∀ v, (dependents node).count v ≤ k.inDegree v := fun v =>
      (Nat.le_add_right _ _).trans (h v)
    obtain ⟨news, hfold, -⟩ := @foldl_release { k with processed := k.processed + 1 } _ hnode
    have hchecked : Kahn.takeChecked dependents k node = some (Kahn.take dependents k node) :=
      foldlM_releaseChecked _ hnode
    rw [List.foldlM_cons, hchecked, Option.bind_eq_bind, Option.bind_some, List.foldl_cons]
    refine ih fun v => ?_
    have hv := h v
    rw [Kahn.take, hfold]
    dsimp only
    omega

theorem Kahn.Sound.passesChecked (h : k.Sound graph)
    (horder : order.Perm (List.range graph.length)) (n : ℕ) :
    k.passesChecked (dependentsOf graph order) n =
      some (k.passes (dependentsOf graph order) n) := by
  induction n generalizing k with
  | zero => rfl
  | succ n ih =>
    have hlayer := @foldlM_takeChecked { k with queue := [] } (dependentsOf graph order) k.queue
      (h.count_le horder)
    rw [passes_succ, Kahn.passesChecked]
    split_ifs
    · rfl
    · rw [hlayer]
      exact ih (h.pass horder).1

/-! ## The result -/

/-- **`topological_sort` is correct.** For steps with unique names whose dependencies exist, and in
whatever order the graph is iterated, no counter falls below zero; the sort succeeds exactly if no
step depends on itself, however indirectly; and then every step is in exactly one layer, behind all
that it depends on. -/
theorem topologicalSort_correct (order : List ℕ) (steps : List WorkflowStep)
    (horder : order.Perm (List.range steps.length)) (hunique : (steps.map (·.name)).Nodup)
    (hexist : ∀ step ∈ steps, ∀ name ∈ step.dependsOn, name ∈ steps.map (·.name)) :
    topologicalSortChecked order steps = some (topologicalSort order steps) ∧
      ((∃ layers, topologicalSort order steps = .ok layers) ↔ Acyclic (DependsOn steps)) ∧
      (¬ Acyclic (DependsOn steps) → ∃ e, topologicalSort order steps = .error e) ∧
      ∀ layers, topologicalSort order steps = .ok layers →
        layers.flatten.Perm (List.range steps.length) ∧ Layered (DependsOn steps) layers := by
  obtain ⟨graph, hgraph, hlen, hdeps⟩ := buildDependencyGraph_ok hunique hexist
  rw [← hlen] at horder
  have hrel : DependsOn steps = fun i j => j ∈ depsOf graph i := by
    funext i j
    exact propext (hdeps i j).symm
  have hstart := sound_start graph
  have hended := hstart.passes horder (graph.length + 1)
  have hempty := hstart.queue_passes horder (n := graph.length + 1) (by omega)
  have hclosed : ∀ i, ∀ j ∈ depsOf graph i, j < graph.length := by
    intro i j hj
    obtain ⟨step, dep, -, hdep, -⟩ := (hdeps i j).mp hj
    rw [hlen]
    exact (List.getElem?_eq_some_iff.mp hdep).1
  have hiff := processed_eq_iff hended hempty hclosed
  have hsort : topologicalSort order steps =
      if ((Kahn.start graph).passes (dependentsOf graph order) (graph.length + 1)).processed =
          graph.length then
        .ok ((Kahn.start graph).passes (dependentsOf graph order) (graph.length + 1)).layers
      else .error "Cycle detected in workflow step dependencies" := by
    unfold topologicalSort
    rw [hgraph]
    dsimp only
    rw [hlen, ite_not]
  rw [hrel]
  refine ⟨?_, ?_, fun hcycle => ?_, fun layers hlayers => ?_⟩
  · unfold topologicalSortChecked topologicalSort
    rw [hgraph]
    dsimp only
    rw [hstart.passesChecked horder]
    dsimp only
    split_ifs <;> rfl
  · rw [← hiff, hsort]
    constructor
    · rintro ⟨layers, hlayers⟩
      split_ifs at hlayers with hall
      exact hall
    · intro hall
      exact ⟨_, if_pos hall⟩
  · rw [hsort, if_neg fun hall => hcycle (hiff.mp hall)]
    exact ⟨_, rfl⟩
  · rw [hsort] at hlayers
    split_ifs at hlayers with hall
    obtain rfl := Except.ok.inj hlayers
    refine ⟨?_, hended.layered⟩
    rw [← hlen]
    rw [hended.processed] at hall
    exact (List.subperm_of_subset (List.nodup_append.mp hended.nodup).1 fun v hv =>
      List.mem_range.mpr (hended.lt v hv)).perm_of_length_le (by rw [List.length_range, hall])

/-- Two steps, of which one names the other twice. -/
theorem topologicalSort_correct_twice :
    let draft : WorkflowStep := { name := "draft", agent := .byName "writer", promptTemplate := "" }
    let review : WorkflowStep := { draft with name := "review", dependsOn := ["draft", "draft"] }
    topologicalSortChecked [1, 0] [review, draft] = some (topologicalSort [1, 0] [review, draft]) ∧
      ((∃ layers, topologicalSort [1, 0] [review, draft] = .ok layers) ↔
        Acyclic (DependsOn [review, draft])) ∧
      (¬ Acyclic (DependsOn [review, draft]) →
        ∃ e, topologicalSort [1, 0] [review, draft] = .error e) ∧
      ∀ layers, topologicalSort [1, 0] [review, draft] = .ok layers →
        layers.flatten.Perm (List.range 2) ∧ Layered (DependsOn [review, draft]) layers :=
  topologicalSort_correct [1, 0] _ (by decide) (by decide) (by decide)

end LibreFang.Engine
