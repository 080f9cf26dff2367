import Mathlib
import SceneExport.Proofs.Bake.Independence
import SceneExport.Proofs.Basics
import SceneExport.Proofs.Curve.Gaps

/-!
# The order in which a bake can fail

A bake goes from frame to frame. It sets the frame on the evaluator and then reads the included
bones one after another: the pose of the bone, that of its parent, and at last the inverses that the
local pose is made of. Each of these is a task that may fail. Written down in their order they are
the schedule of the bake, and a bake either passes all tasks or ends with the error of the first one
that fails. Only setting frames changes the evaluator, so the state it is left in tells which frames
were set.
-/
namespace SceneExport.Bake

variable {σ α β γ : Type}

/-- What is checked when a bone is read. -/
inductive Check (α : Type) where
  /-- The evaluator has a pose for the bone at position `i`. -/
  | pose (bone : Bone α) (i : Nat)
  /-- The rest position of the bone has an inverse. -/
  | rest (bone : Bone α)
  /-- What moves the bone at position `i` from its rest position to its pose has an inverse. -/
  | channel (bone : Bone α) (i : Nat)

namespace Check

def passes [Scalar α] (setup : Setup σ α) (bias : α) (state : σ) : Check α → Bool
  | .pose _ i => (setup.evaluator.pose? state i).isSome
  | .rest bone => (bone.rest.safeInverse? bias).isSome
  | .channel bone i =>
    match setup.evaluator.pose? state i, bone.rest.safeInverse? bias with
    | some placed, some inverse => ((placed * inverse).safeInverse? bias).isSome
    -- an earlier check of the same bone has failed
    | _, _ => true

/-- A missing pose is told by the bone that has none, a missing inverse by the bone that is read. -/
def error (site : Pose.Site) : Check α → Error
  | .pose bone _ => .missingPose bone.name site.frame
  | .rest _ | .channel _ _ => .singularMatrix site.bone site.frame

/-- The checks of a bone in their order: its pose, the pose of its parent, then the inverses. -/
def ofBone (skeleton : Skeleton α) (bone : Bone α) (i : Nat) : List (Check α) :=
  match bone.parent.bind fun p => skeleton.bones[p]?.map (p, ·) with
  | none => [.pose bone i, .rest bone]
  | some (p, parent) => [.pose bone i, .pose parent p, .rest bone, .rest parent, .channel parent p]

end Check

/-- One thing that a bake does and that may fail. -/
inductive Task (α : Type) where
  | visit (frame : Int)
  | check (site : Pose.Site) (check : Check α)

namespace Task

def frame : Task α → Int
  | .visit frame => frame
  | .check site _ => site.frame

def run [Scalar α] (setup : Setup σ α) (bias : α) : Task α → Step σ Unit
  | .visit frame => setup.evaluator.setFrame frame
  | .check site c => do
    let state ← get
    if c.passes setup bias state then pure () else throw (c.error site)

end Task

/-- The tasks at one frame once it is set. -/
def boneTasks (setup : Setup σ α) (bones : List (Bone α × Nat)) (frame : Int) : List (Task α) :=
  bones.flatMap fun (bone, i) => (Check.ofBone setup.skeleton bone i).map
    (.check ⟨bone.name, frame⟩)

/-- The tasks at one frame. -/
def frameTasks (setup : Setup σ α) (bones : List (Bone α × Nat)) (frame : Int) : List (Task α) :=
  .visit frame :: boneTasks setup bones frame

/-- All tasks of a bake in their order. -/
def schedule (setup : Setup σ α) (bones : List (Bone α × Nat)) (frames : List Int) :
    List (Task α) :=
  frames.flatMap (frameTasks setup bones)

/-- All tasks are passed, from one state to another. -/
inductive Passed [Scalar α] (setup : Setup σ α) (bias : α) : List (Task α) → σ → σ → Prop
  | nil (s : σ) : Passed setup bias [] s s
  | cons {task : Task α} {rest : List (Task α)} {s s₁ s' : σ} :
    (attempt (task.run setup bias)).run s = (.ok (), s₁) → Passed setup bias rest s₁ s' →
      Passed setup bias (task :: rest) s s'

/-- All tasks before `task` are passed, and `task` fails with `e` and leaves `s'`. -/
def FirstFailure [Scalar α] (setup : Setup σ α) (bias : α) (tasks : List (Task α)) (s : σ)
    (task : Task α) (e : Error) (s' : σ) : Prop :=
  ∃ done later s₁, tasks = done ++ task :: later ∧ Passed setup bias done s s₁ ∧
    (attempt (task.run setup bias)).run s₁ = (.error e, s')

/-- The step goes along the tasks from a state. It passes all of them and ends with a result as
`post` says, or it ends with the first failure. -/
def Runs [Scalar α] (setup : Setup σ α) (bias : α) (post : β → σ → Prop) (step : Step σ β)
    (tasks : List (Task α)) (s : σ) : Prop :=
  (∃ b s', (attempt step).run s = (.ok b, s') ∧ Passed setup bias tasks s s' ∧ post b s') ∨
    ∃ task e s', (attempt step).run s = (.error e, s') ∧ FirstFailure setup bias tasks s task e s'

lemma liftExcept_bind (r : Except Error β) (f : β → Except Error γ) :
    (sampleFrame.liftExcept (r >>= f) : Step σ γ) =
      sampleFrame.liftExcept r >>= fun b => sampleFrame.liftExcept (f b) := by
  cases r <;> rfl

section Rules

variable [Scalar α] {setup : Setup σ α} {bias : α} {task : Task α} {tasks tasks' : List (Task α)}
  {s s' s₁ : σ} {site : Pose.Site} {c : Check α}

lemma Passed.append (h : Passed setup bias tasks s s₁) (h' : Passed setup bias tasks' s₁ s') :
    Passed setup bias (tasks ++ tasks') s s' := by
  induction h with
  | nil => exact h'
  | cons hrun _ ih => exact .cons hrun (ih h')

lemma runs_pure {post : β → σ → Prop} {b : β} (h : post b s) : Runs setup bias post (pure b) [] s :=
  .inl ⟨b, s, rfl, .nil s, h⟩

lemma Runs.bind {post : β → σ → Prop} {post' : γ → σ → Prop} {step : Step σ β} {next : β → Step σ γ}
    (h : Runs setup bias post step tasks s)
    (hnext : ∀ b s', post b s' → Runs setup bias post' (next b) tasks' s') :
    Runs setup bias post' (step >>= next) (tasks ++ tasks') s := by
  rcases h with ⟨b, s₁, hrun, hpassed, hpost⟩ | ⟨task, e, s', hrun, done, later, s₁, rfl,
    hdone, hfails⟩
  · rw [Runs, attempt_bind_ok hrun]
    rcases hnext b s₁ hpost with ⟨c, s', hrun', hpassed', hpost'⟩ |
      ⟨task, e, s', hrun', done, later, s₂, rfl, hdone, hfails⟩
    · exact .inl ⟨c, s', hrun', hpassed.append hpassed', hpost'⟩
    · exact .inr ⟨task, e, s', hrun', tasks ++ done, later, s₂, by rw [List.append_assoc],
        hpassed.append hdone, hfails⟩
  · exact .inr ⟨task, e, s', attempt_bind_error hrun, done, later ++ tasks', s₁,
      by simp, hdone, hfails⟩

lemma Runs.imp {post post' : β → σ → Prop} {step : Step σ β} (h : Runs setup bias post step tasks s)
    (himp : ∀ b s', post b s' → post' b s') : Runs setup bias post' step tasks s :=
  h.imp_left fun ⟨b, s', hrun, hpassed, hpost⟩ => ⟨b, s', hrun, hpassed, himp b s' hpost⟩

lemma runs_get {post : β → σ → Prop} {next : σ → Step σ β}
    (h : Runs setup bias post (next s) tasks s) : Runs setup bias post (get >>= next) tasks s := by
  rw [Runs, attempt_bind_ok (attempt_get s)]
  exact h

/-- A step that does one task, and what comes behind it. -/
lemma Runs.next {post : β → σ → Prop} {post' : γ → σ → Prop} {step : Step σ β} {next : β → Step σ γ}
    (h : Runs setup bias post step [task] s)
    (hnext : ∀ b s', post b s' → Runs setup bias post' (next b) tasks s') :
    Runs setup bias post' (step >>= next) (task :: tasks) s :=
  h.bind hnext

lemma runs_visit (frame : Int) (s : σ) :
    Runs setup bias (fun _ _ => True) (setup.evaluator.setFrame frame) [.visit frame] s := by
  rcases hrun : (attempt (setup.evaluator.setFrame frame)).run s with ⟨e | _, s'⟩
  · exact .inr ⟨_, e, s', hrun, [], [], s, rfl, .nil s, hrun⟩
  · exact .inl ⟨(), s', hrun, .cons hrun (.nil s'), trivial⟩

lemma attempt_check (setup : Setup σ α) (bias : α) (site : Pose.Site) (c : Check α) (s : σ) :
    (attempt ((Task.check site c).run setup bias)).run s =
      (if c.passes setup bias s then .ok () else .error (c.error site), s) := by
  rw [Task.run, attempt_bind_ok (attempt_get s)]
  split <;> rfl

/-- What is read from the present state, if it goes well exactly when a check is passed. -/
lemma runs_check {r : Except Error β} {post : β → Prop}
    (hok : c.passes setup bias s = true → ∃ b, r = .ok b ∧ post b)
    (herror : c.passes setup bias s = false → r = .error (c.error site)) :
    Runs setup bias (fun b s' => s' = s ∧ post b) (sampleFrame.liftExcept r) [.check site c] s := by
  have hrun := attempt_check setup bias site c s
  cases hpasses : c.passes setup bias s with
  | true =>
    obtain ⟨b, rfl, hpost⟩ := hok hpasses
    rw [hpasses, if_pos rfl] at hrun
    exact .inl ⟨b, s, rfl, .cons hrun (.nil s), rfl, hpost⟩
  | false =>
    rw [hpasses, if_neg Bool.false_ne_true] at hrun
    rw [herror hpasses]
    exact .inr ⟨_, _, s, rfl, [], [], s, rfl, .nil s, hrun⟩

end Rules

section Bones

variable [Scalar α] {setup : Setup σ α} {bias : α} {s : σ} {site : Pose.Site} {c : Check α}

lemma runs_readPose (site : Pose.Site) (bone : Bone α) (i : Nat) :
    Runs setup bias (fun pose s' => s' = s ∧ setup.evaluator.pose? s i = some pose)
      (sampleFrame.liftExcept (readPose setup s site.frame bone i))
        [.check site (.pose bone i)] s := by
  unfold readPose
  refine runs_check (fun hpasses => ?_) fun hfails => ?_
  · obtain ⟨pose, hpose⟩ := Option.isSome_iff_exists.mp hpasses
    exact ⟨pose, by rw [hpose], hpose⟩
  · have hnone : setup.evaluator.pose? s i = none := by simpa [Check.passes] using hfails
    rw [hnone]
    rfl

lemma runs_invert {m : Mat4 α} (hpasses : c.passes setup bias s = (m.safeInverse? bias).isSome)
    (herror : c.error site = .singularMatrix site.bone site.frame) :
    Runs setup bias (fun inverse s' => s' = s ∧ m.safeInverse? bias = some inverse)
      (sampleFrame.liftExcept (Pose.invert m bias site)) [.check site c] s := by
  unfold Pose.invert
  refine runs_check (fun hsome => ?_) fun hfails => ?_
  · rw [hpasses] at hsome
    obtain ⟨inverse, hinverse⟩ := Option.isSome_iff_exists.mp hsome
    exact ⟨inverse, by rw [hinverse], hinverse⟩
  · have hnone : m.safeInverse? bias = none := by simpa [hpasses] using hfails
    rw [hnone, herror]

lemma runs_invertRest (bone : Bone α) :
    Runs setup bias (fun inverse s' => s' = s ∧ bone.rest.safeInverse? bias = some inverse)
      (sampleFrame.liftExcept (Pose.invert bone.rest bias site)) [.check site (.rest bone)] s :=
  runs_invert rfl rfl

/-- The local pose of a bone without a parent. -/
lemma runs_localPose_root (bone : Bone α) (pose : Mat4 α) :
    Runs setup bias (fun _ s' => s' = s)
      (sampleFrame.liftExcept (Pose.localPose ⟨bone.rest, pose⟩ none bias site))
      [.check site (.rest bone)] s := by
  unfold Pose.localPose
  rw [liftExcept_bind]
  refine (runs_invertRest bone).next fun inverse s' hinverse => ?_
  exact runs_pure hinverse.1

/-- The local pose of a bone under a parent whose pose is known. -/
lemma runs_localPose_child (bone parent : Bone α) (pose above : Mat4 α) {p : Nat}
    (hparent : setup.evaluator.pose? s p = some above) :
    Runs setup bias (fun _ s' => s' = s)
      (sampleFrame.liftExcept
        (Pose.localPose ⟨bone.rest, pose⟩ (some ⟨parent.rest, above⟩) bias site))
      [.check site (.rest bone), .check site (.rest parent),
        .check site (.channel parent p)] s := by
  unfold Pose.localPose Pose.Placed.channel
  simp only [bind_assoc, pure_bind]
  rw [liftExcept_bind]
  refine (runs_invertRest bone).next fun inverse s' hs' => ?_
  obtain ⟨rfl, -⟩ := hs'
  rw [liftExcept_bind]
  refine (runs_invertRest parent).next fun inverse' s'' hs'' => ?_
  obtain ⟨rfl, hinverse'⟩ := hs''
  rw [liftExcept_bind]
  have hpasses : (Check.channel parent p).passes setup bias s'' =
      ((above * inverse').safeInverse? bias).isSome := by
    simp only [Check.passes, hparent, hinverse']
  refine (runs_invert hpasses rfl).next fun back s' hs' => ?_
  exact runs_pure hs'.1

/-- Reading a bone goes along its checks. -/
lemma runs_sampleBone (frame : Int) (bone : Bone α) (i : Nat) :
    Runs setup bias (fun _ s' => s' = s)
      (sampleFrame.liftExcept (sampleBone setup bias s frame bone i))
      ((Check.ofBone setup.skeleton bone i).map (.check ⟨bone.name, frame⟩)) s := by
  unfold sampleBone readParent Check.ofBone
  rw [liftExcept_bind]
  cases bone.parent.bind fun p => setup.skeleton.bones[p]?.map (p, ·) with
  | none =>
    refine (runs_readPose ⟨bone.name, frame⟩ bone i).next fun pose s' hs' => ?_
    obtain ⟨rfl, -⟩ := hs'
    simp only [ok_bind]
    rw [liftExcept_bind]
    exact (runs_localPose_root bone pose).bind fun m s' hs' => runs_pure hs'
  | some parent =>
    obtain ⟨p, parent⟩ := parent
    refine (runs_readPose ⟨bone.name, frame⟩ bone i).next fun pose s' hs' => ?_
    obtain ⟨rfl, -⟩ := hs'
    simp only [bind_assoc, pure_bind]
    rw [liftExcept_bind]
    refine (runs_readPose ⟨bone.name, frame⟩ parent p).next fun above s'' hs'' => ?_
    obtain ⟨rfl, habove⟩ := hs''
    rw [liftExcept_bind]
    exact (runs_localPose_child bone parent pose above habove).bind fun m s' hs' => runs_pure hs'

/-- Reading several bones goes along the checks of all of them. -/
lemma runs_sampleBones (frame : Int) (bones : List (Bone α × Nat)) :
    Runs setup bias (fun transforms s' => s' = s ∧ transforms.length = bones.length)
      (sampleFrame.liftExcept (bones.mapM fun (bone, i) => sampleBone setup bias s frame bone i))
      (boneTasks setup bones frame) s := by
  unfold boneTasks
  induction bones with
  | nil => exact runs_pure ⟨rfl, rfl⟩
  | cons first rest ih =>
    obtain ⟨bone, i⟩ := first
    rw [List.mapM_cons, liftExcept_bind, List.flatMap_cons]
    refine (runs_sampleBone frame bone i).bind fun transform s' hs' => ?_
    subst hs'
    rw [liftExcept_bind, ← List.append_nil (List.flatMap _ rest)]
    refine ih.bind fun transforms s'' hs'' => runs_pure ⟨hs''.1, ?_⟩
    rw [List.length_cons, List.length_cons, hs''.2]

/-- A frame goes along its tasks. -/
lemma runs_sampleFrame (bones : List (Bone α × Nat)) (frame : Int) (s : σ) :
    Runs setup bias (fun transforms _ => transforms.length = bones.length)
      (sampleFrame setup bias bones frame) (frameTasks setup bones frame) s := by
  unfold sampleFrame frameTasks
  refine (runs_visit frame s).next fun _ s' _ => ?_
  exact runs_get ((runs_sampleBones frame bones).imp fun _ _ hs => hs.2)

/-- All frames go along the schedule. -/
theorem runs_sampleFrames (bones : List (Bone α × Nat)) (count : Nat) (frame : Int) (s : σ) :
    Runs setup bias (fun samples _ => samples.map Prod.fst = framesFrom frame count ∧
        ∀ sample ∈ samples, sample.2.length = bones.length)
      (sampleFrames setup bias bones count frame)
        (schedule setup bones (framesFrom frame count)) s := by
  induction count generalizing frame s with
  | zero => exact runs_pure ⟨rfl, by simp⟩
  | succ count ih =>
    unfold sampleFrames
    rw [schedule, framesFrom, List.flatMap_cons]
    refine (runs_sampleFrame bones frame s).bind fun transforms s' htransforms => ?_
    rw [← List.append_nil (List.flatMap _ _)]
    refine (ih (frame + 1) s').bind fun samples s'' hsamples => runs_pure ⟨?_, ?_⟩
    · rw [List.map_cons, hsamples.1]
    · intro sample hsample
      rcases List.mem_cons.mp hsample with rfl | hsample
      · exact htransforms
      · exact hsamples.2 sample hsample

end Bones

section Visits

variable {setup : Setup σ α} {bones : List (Bone α × Nat)} {tasks done later : List (Task α)}
  {task : Task α}

/-- The frames that are set by tasks. -/
def visits : List (Task α) → List Int
  | [] => []
  | .visit frame :: rest => frame :: visits rest
  | .check _ _ :: rest => visits rest

/-- The state of an evaluator after frames are set, however it went. -/
def visited (evaluator : Pose.Evaluator σ α) (frames : List Int) (s : σ) : σ :=
  frames.foldl (fun s frame => ((attempt (evaluator.setFrame frame)).run s).2) s

lemma visits_append (tasks tasks' : List (Task α)) :
    visits (tasks ++ tasks') = visits tasks ++ visits tasks' := by
  induction tasks with
  | nil => rfl
  | cons task rest ih =>
    cases task with
    | visit frame => exact congrArg (frame :: ·) ih
    | check site c => exact ih

lemma visited_append (evaluator : Pose.Evaluator σ α) (frames frames' : List Int) (s : σ) :
    visited evaluator (frames ++ frames') s =
      visited evaluator frames' (visited evaluator frames s) :=
  List.foldl_append

lemma exists_of_mem_boneTasks {frame : Int} (h : task ∈ boneTasks setup bones frame) :
    ∃ bone c, task = .check ⟨bone, frame⟩ c := by
  obtain ⟨bone, -, hbone⟩ := List.mem_flatMap.mp h
  obtain ⟨c, -, rfl⟩ := List.mem_map.mp hbone
  exact ⟨_, c, rfl⟩

/-- Nothing is set while bones are read. -/
lemma visits_eq_nil {frame : Int} (h : tasks ⊆ boneTasks setup bones frame) :
    visits tasks = [] := by
  induction tasks with
  | nil => rfl
  | cons task rest ih =>
    obtain ⟨bone, c, rfl⟩ := exists_of_mem_boneTasks (h List.mem_cons_self)
    exact ih (List.subset_of_cons_subset h)

lemma visits_frameTasks (setup : Setup σ α) (bones : List (Bone α × Nat)) (frame : Int) :
    visits (frameTasks setup bones frame) = [frame] := by
  rw [frameTasks, visits, visits_eq_nil (List.Subset.refl (boneTasks setup bones frame))]

/-- The first task of a frame sets it, and all of them are at the frame. -/
lemma visits_of_frameTasks {frame : Int}
    (h : frameTasks setup bones frame = done ++ task :: later) :
    visits (done ++ [task]) = [frame] ∧ task.frame = frame := by
  cases done with
  | nil =>
    obtain ⟨rfl, -⟩ := List.cons.inj h
    exact ⟨rfl, rfl⟩
  | cons first done =>
    rw [frameTasks, List.cons_append] at h
    obtain ⟨rfl, hrest⟩ := List.cons.inj h
    have hsub : done ++ [task] ⊆ boneTasks setup bones frame := by
      rw [hrest, List.append_cons done task later]
      exact List.subset_append_left _ _
    obtain ⟨bone, c, rfl⟩ :=
      exists_of_mem_boneTasks (hsub (List.mem_append_right done List.mem_cons_self))
    rw [List.cons_append, visits, visits_eq_nil hsub]
    exact ⟨rfl, rfl⟩

/-- When all tasks are passed, all frames are set. -/
lemma visits_schedule (setup : Setup σ α) (bones : List (Bone α × Nat)) (frames : List Int) :
    visits (schedule setup bones frames) = frames := by
  induction frames with
  | nil => rfl
  | cons frame rest ih =>
    rw [schedule, List.flatMap_cons, visits_append, visits_frameTasks]
    exact congrArg (frame :: ·) ih

/-- Up to a task of the schedule, the frames up to that of the task are set. -/
theorem visits_of_schedule {frames : List Int} (hframes : frames.Pairwise (· < ·))
    (h : schedule setup bones frames = done ++ task :: later) :
    task.frame ∈ frames ∧ visits (done ++ [task]) = frames.filter (· ≤ task.frame) := by
  induction frames generalizing done with
  | nil => simp [schedule] at h
  | cons frame rest ih =>
    obtain ⟨hfirst, hrest⟩ := List.pairwise_cons.mp hframes
    rw [schedule, List.flatMap_cons] at h
    -- The task belongs to a later frame or to this one.
    have hbehind : ∀ done', done = frameTasks setup bones frame ++ done' →
        schedule setup bones rest = done' ++ task :: later →
        task.frame ∈ frame :: rest ∧
          visits (done ++ [task]) = (frame :: rest).filter (· ≤ task.frame) := by
      rintro done' rfl hsplit
      obtain ⟨hmem, hset⟩ := ih hrest hsplit
      have hle : frame ≤ task.frame := (hfirst _ hmem).le
      refine ⟨List.mem_cons_of_mem _ hmem, ?_⟩
      rw [List.append_assoc, visits_append, visits_frameTasks, hset,
        List.filter_cons_of_pos (by simpa using hle), List.singleton_append]
    rcases List.append_eq_append_iff.mp h
      with ⟨done', hdone, hsplit⟩ | ⟨_ | ⟨t, back⟩, hdone, hsplit⟩
    · exact hbehind done' hdone hsplit
    · exact hbehind [] (by rw [hdone, List.append_nil, List.append_nil]) hsplit.symm
    · obtain ⟨rfl, -⟩ := List.cons.inj hsplit
      obtain ⟨hset, hframe⟩ := visits_of_frameTasks hdone
      refine ⟨by simp [hframe], ?_⟩
      have hnone : rest.filter (· ≤ frame) = [] := by
        simpa [List.filter_eq_nil_iff] using hfirst
      rw [hset, hframe, List.filter_cons_of_pos (by simp), hnone]

/-- A task changes the state by setting its frame or not at all. -/
lemma state_eq_of_run [Scalar α] {bias : α} {s s' : σ} {r : Except Error Unit}
    (hrun : (attempt (task.run setup bias)).run s = (r, s')) :
    s' = visited setup.evaluator (visits [task]) s := by
  cases task with
  | visit frame => exact (congrArg Prod.snd hrun).symm
  | check site c =>
    rw [attempt_check] at hrun
    exact (congrArg Prod.snd hrun).symm

lemma Passed.state_eq [Scalar α] {bias : α} {s s' : σ} (h : Passed setup bias tasks s s') :
    s' = visited setup.evaluator (visits tasks) s := by
  induction h with
  | nil => rfl
  | cons hrun _ ih =>
    rw [ih, state_eq_of_run hrun, ← visited_append, ← visits_append, List.singleton_append]

/-- A bake that fails has set the frames up to the one it fails at, and no later one. -/
lemma FirstFailure.state_eq [Scalar α] {bias : α} {frames : List Int} {s s' : σ} {e : Error}
    (hframes : frames.Pairwise (· < ·))
    (h : FirstFailure setup bias (schedule setup bones frames) s task e s') :
    task.frame ∈ frames ∧ s' = visited setup.evaluator (frames.filter (· ≤ task.frame)) s := by
  obtain ⟨done, later, s₁, hsplit, hpassed, hrun⟩ := h
  obtain ⟨hmem, hvisits⟩ := visits_of_schedule hframes hsplit
  refine ⟨hmem, ?_⟩
  rw [← hvisits, visits_append, visited_append, ← hpassed.state_eq]
  exact state_eq_of_run hrun

end Visits

end SceneExport.Bake
