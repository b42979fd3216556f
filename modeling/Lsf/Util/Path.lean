import Lsf.Util.Trim

/-!
# Names of files and directories

`GetDirName` and `GetBaseName` work in the string as it is given, with positions: of the first and
the last character that is no whitespace, the latter moved back over slashes, and of the last slash
up to there. `GetDirName` goes up one directory, and `MkDir` calls itself with the directory that it
gives.

A position is a number, or none for `npos`. The calls of the operating system are a parameter.

## Main definitions

* `getDirName`, `getBaseName`, `mkDir` — the source's functions
* `stripped` — the path without whitespace around it and without slashes at its end
* `SplitsInto` — a directory and a name in it

## Main results

* `Parts.pathPositions_eq` — the positions, in terms of what is around the stripped path
* `Parts.splitsInto`
* `getDirName_step`, `exists_dirNames_stop` — going up
* `path_names`
-/

namespace Lsf.StringExt

/-- The character `/`. -/
def slash : UInt8 := 47

/-- The character `.`. -/
def dot : UInt8 := 46

/-- `while (input[pos2] == '/' && pos2 != 0) pos2--`. -/
def removeSlashes (input : List UInt8) : ℕ → ℕ
  | 0 => 0
  | pos2 + 1 => if input[pos2 + 1]? = some slash then removeSlashes input pos2 else pos2 + 1

/-- What both functions begin with: `pos1`, `pos2` and `pos`. There are none if all characters are
whitespace, where the source reads the character at `npos`. -/
def pathPositions (input : List UInt8) : Option (ℕ × ℕ × Option ℕ) :=
  match findFrom (fun c => !isSpace c) input 0, findLast (fun c => !isSpace c) input with
  | some pos1, some pos2 =>
    let pos2 := removeSlashes input pos2
    some (pos1, pos2, findLast (· == slash) (input.take (pos2 + 1)))
  | _, _ => none

/-- `GetDirName`. -/
def getDirName (input : List UInt8) : Option (List UInt8) :=
  (pathPositions input).bind fun (pos1, _, pos) =>
    match pos with
    | none => some [dot]
    | some pos => if pos = pos1 then some [slash] else substr input pos1 (some (pos - pos1))

/-- `GetBaseName`. -/
def getBaseName (input : List UInt8) : Option (List UInt8) :=
  (pathPositions input).bind fun (pos1, pos2, pos) =>
    match pos with
    | none => substr input pos1 (some (pos2 + 1 - pos1))
    | some pos => substr input (pos + 1) (some (pos2 - pos))

/-- The path without the whitespace around it and then without slashes at its end. -/
def stripped (path : List UInt8) : List UInt8 :=
  (trimmed path).rdropWhile (· == slash)

/-- The path has a character that is neither whitespace nor a slash. -/
def Named (path : List UInt8) : Prop :=
  ∃ c ∈ path, isSpace c = false ∧ c ≠ slash

/-- The path begins with a character that is no whitespace. -/
def Rooted (path : List UInt8) : Prop :=
  ∃ x rest, path = x :: rest ∧ isSpace x = false

/-- `"."` or a path of slashes only. -/
def Stop (path : List UInt8) : Prop :=
  path = [dot] ∨ path ≠ [] ∧ ∀ c ∈ path, c = slash

/-- `GetDirName` so many times. -/
def dirNames : ℕ → List UInt8 → Option (List UInt8)
  | 0, path => some path
  | n + 1, path => (getDirName path).bind (dirNames n)

/-- The calls of the operating system that `MkDir` makes, in a state of the file system. -/
structure FileSystem (σ : Type) where
  isDir : σ → List UInt8 → Bool
  isExist : σ → List UInt8 → Bool
  mkdir : σ → List UInt8 → Bool × σ

/-- `MkDir`, with the state afterwards. -/
def mkDir {σ : Type} (fs : FileSystem σ) : ℕ → σ → List UInt8 → Option (Bool × σ)
  | 0, _, _ => none
  | fuel + 1, state, path =>
    if fs.isDir state path then some (true, state)
    else
      (getDirName path).bind fun dirname =>
        if fs.isExist state dirname && !fs.isDir state dirname then some (false, state)
        else
          let parent := if fs.isExist state dirname then some (true, state)
            else mkDir fs fuel state dirname
          parent.bind fun (ok, state) =>
            if ok then some (fs.mkdir state path) else some (false, state)

/-- The working directory and the root are there, in every state. -/
structure FileSystem.HasRoots {σ : Type} (fs : FileSystem σ) : Prop where
  isDir_dot : ∀ state, fs.isDir state [dot] = true
  isDir_slashes : ∀ state path, path ≠ [] → (∀ c ∈ path, c = slash) → fs.isDir state path = true

/-- A directory and a name in it, from a stripped path. -/
inductive SplitsInto (t : List UInt8) : List UInt8 → List UInt8 → Prop
  | plain : slash ∉ t → SplitsInto t [dot] t
  | root {base} : t = slash :: base → slash ∉ base → SplitsInto t [slash] base
  | inner {dir base} : t = dir ++ slash :: base → dir ≠ [] → slash ∉ base → SplitsInto t dir base

/-! ### The parts of a path -/

/-- `t` is the stripped path, between what is taken away. -/
structure Parts (path lead t slashes trail : List UInt8) : Prop where
  eq : path = lead ++ (t ++ (slashes ++ trail))
  lead_space : ∀ c ∈ lead, isSpace c = true
  slashes_eq : ∀ c ∈ slashes, c = slash
  trail_space : ∀ c ∈ trail, isSpace c = true
  first : ∃ x rest, t = x :: rest ∧ isSpace x = false
  last : ∃ front y, t = front ++ [y] ∧ y ≠ slash
  before_trail : ∃ front y, t ++ slashes = front ++ [y] ∧ isSpace y = false

theorem removeSlashes_eq {input : List UInt8} {pos : ℕ} (n : ℕ)
    (hstop : pos = 0 ∨ input[pos]? ≠ some slash)
    (hslash : ∀ i < n, input[pos + (i + 1)]? = some slash) :
    removeSlashes input (pos + n) = pos := by
  induction n with
  | zero =>
    cases pos with
    | zero => rfl
    | succ pos => exact if_neg (hstop.resolve_left (Nat.succ_ne_zero pos))
  | succ n ih =>
    rw [← Nat.add_assoc, removeSlashes, Nat.add_assoc, if_pos (hslash n (Nat.lt_succ_self n))]
    exact ih fun i hi => hslash i (Nat.lt_succ_of_lt hi)

/-- A path that is not stripped to nothing has all its parts. -/
theorem exists_parts {path : List UInt8} (h : stripped path ≠ []) :
    ∃ lead slashes trail, Parts path lead (stripped path) slashes trail := by
  have hpath : path = path.takeWhile isSpace ++ path.dropWhile isSpace :=
    List.takeWhile_append_dropWhile.symm
  have htrim : path.dropWhile isSpace =
      trimmed path ++ (path.dropWhile isSpace).rtakeWhile isSpace :=
    List.rdropWhile_append_rtakeWhile.symm
  have hstrip : trimmed path = stripped path ++ (trimmed path).rtakeWhile (· == slash) :=
    List.rdropWhile_append_rtakeWhile.symm
  have hne : trimmed path ≠ [] := fun hnil => h (by rw [stripped, hnil, List.rdropWhile_nil])
  refine ⟨path.takeWhile isSpace, (trimmed path).rtakeWhile (· == slash),
    (path.dropWhile isSpace).rtakeWhile isSpace, ?_, fun c hc => ?_, fun c hc => ?_,
    fun c hc => List.mem_rtakeWhile_imp hc, ?_, ?_, ?_⟩
  · calc path = path.takeWhile isSpace ++ (trimmed path ++ _) := by rw [← htrim, ← hpath]
      _ = path.takeWhile isSpace ++ ((stripped path ++ _) ++ _) := by rw [← hstrip]
      _ = _ := by rw [List.append_assoc]
  · exact List.mem_takeWhile_imp hc
  · exact beq_iff_eq.mp (List.mem_rtakeWhile_imp (p := (· == slash)) hc)
  · obtain ⟨x, rest, hx⟩ := List.exists_cons_of_ne_nil h
    refine ⟨x, rest, hx, ?_⟩
    rw [hstrip, hx, List.cons_append, List.cons_append] at htrim
    have hhead := List.head?_dropWhile_not isSpace path
    rw [htrim] at hhead
    exact hhead
  · refine ⟨_, _, (List.dropLast_append_getLast h).symm, ?_⟩
    have hlast := List.rdropWhile_last_not (· == slash) (trimmed path) h
    exact fun heq => hlast (beq_iff_eq.mpr heq)
  · refine ⟨_, _, (hstrip.symm.trans (List.dropLast_append_getLast hne).symm), ?_⟩
    exact Bool.eq_false_iff.mpr (List.rdropWhile_last_not isSpace _ hne)

namespace Parts

variable {path lead t slashes trail : List UInt8} (h : Parts path lead t slashes trail)
include h

theorem slash_notMem_lead : slash ∉ lead := fun hmem =>
  absurd (h.lead_space slash hmem) (by decide)

theorem findFirst_eq : findFrom (fun c => !isSpace c) path 0 = some lead.length := by
  obtain ⟨x, rest, ht, hx⟩ := h.first
  have hcut : path.drop 0 = lead ++ x :: (rest ++ (slashes ++ trail)) := by
    rw [List.drop_zero, h.eq, ht, List.cons_append]
  rw [findFrom_of_cut hcut (fun c hc => by rw [h.lead_space c hc]; rfl) (by rw [hx]; rfl),
    Nat.zero_add]

theorem findLast_eq :
    findLast (fun c => !isSpace c) path = some (lead.length + (t.length + slashes.length - 1)) := by
  obtain ⟨front, y, hend, hy⟩ := h.before_trail
  have hlen := congrArg List.length hend
  rw [List.length_append, List.length_append, List.length_singleton] at hlen
  have hpath : path = (lead ++ front) ++ y :: trail := by
    rw [h.eq, ← List.append_assoc t, hend]
    simp only [List.append_assoc, List.singleton_append]
  rw [hpath, findLast_of_cut (p := fun c => !isSpace c) (by rw [hy]; rfl)
    (fun c hc => by rw [h.trail_space c hc]; rfl), hlen, Nat.add_sub_cancel, List.length_append]

/-- The loop stops at the end of the stripped path. -/
theorem removeSlashes_parts :
    removeSlashes path (lead.length + (t.length + slashes.length - 1)) =
      lead.length + (t.length - 1) := by
  obtain ⟨front, y, ht, hy⟩ := h.last
  have hlen : t.length = front.length + 1 := by rw [ht, List.length_append, List.length_singleton]
  have hpath : path = (lead ++ front) ++ y :: (slashes ++ trail) := by
    rw [h.eq, ht]
    simp only [List.append_assoc, List.singleton_append]
  have hpos : lead.length + (t.length + slashes.length - 1) =
      (lead ++ front).length + slashes.length := by
    rw [hlen, List.length_append]
    omega
  rw [hpos, removeSlashes_eq slashes.length, hlen, List.length_append, Nat.add_sub_cancel]
  · right
    rw [hpath, List.getElem?_append_right (Nat.le_refl _), Nat.sub_self]
    exact fun heq => hy (Option.some.inj heq)
  · intro i hi
    rw [hpath, List.getElem?_append_right (Nat.le_add_right _ _), Nat.add_sub_cancel_left,
      List.getElem?_cons_succ, List.getElem?_append_left hi, List.getElem?_eq_getElem hi]
    exact congrArg some (h.slashes_eq _ (List.getElem_mem hi))

theorem pathPositions_eq :
    pathPositions path =
      some (lead.length, lead.length + (t.length - 1), findLast (· == slash) (lead ++ t)) := by
  have htake : path.take (lead.length + (t.length - 1) + 1) = lead ++ t := by
    obtain ⟨x, rest, ht, -⟩ := h.first
    have hlen : lead.length + (t.length - 1) + 1 = (lead ++ t).length := by
      rw [ht, List.length_append, List.length_cons]
      omega
    rw [hlen, h.eq, ← List.append_assoc, List.take_left]
  rw [pathPositions, h.findFirst_eq, h.findLast_eq]
  dsimp only
  rw [h.removeSlashes_parts, htake]

/-- **A directory and a name in it.** -/
theorem splitsInto :
    ∃ dir base, getDirName path = some dir ∧ getBaseName path = some base ∧ base ≠ [] ∧
      SplitsInto t dir base := by
  obtain ⟨last, y, htlast, hy⟩ := h.last
  have hne : t ≠ [] := by rw [htlast]; exact List.concat_ne_nil y last
  have hpos := List.length_pos_iff.mpr hne
  have hle : lead.length ≤ path.length := by rw [h.eq, List.length_append]; omega
  have hdrop : path.drop lead.length = t ++ (slashes ++ trail) := by rw [h.eq, List.drop_left]
  rw [getDirName, getBaseName, h.pathPositions_eq, Option.bind_some, Option.bind_some]
  obtain hno | ⟨front, x, base, rfl, hx, hbase⟩ := exists_last_cut (· == slash) t
  · have hnone : findLast (· == slash) (lead ++ t) = none := by
      refine findLast_of_forall fun c hc => ?_
      obtain hc | hc := List.mem_append.mp hc
      · exact beq_false_of_ne fun heq => h.slash_notMem_lead (heq ▸ hc)
      · exact hno c hc
    rw [hnone]
    refine ⟨[dot], t, rfl, ?_, hne, .plain fun hmem => ?_⟩
    · dsimp only
      rw [substr_some hle, hdrop, show lead.length + (t.length - 1) + 1 - lead.length = t.length by
        omega, List.take_left]
    · exact absurd (hno slash hmem) (by decide)
  · obtain rfl : x = slash := beq_iff_eq.mp hx
    have hbase' : slash ∉ base := fun hmem => absurd (hbase slash hmem) (by decide)
    have hbne : base ≠ [] := by
      rintro rfl
      exact hy (List.append_inj_right' htlast.symm rfl |> List.cons.inj |>.1)
    have hsome : findLast (· == slash) (lead ++ (front ++ slash :: base)) =
        some (lead.length + front.length) := by
      rw [← List.append_assoc, findLast_of_cut (p := (· == slash)) hx hbase, List.length_append]
    rw [hsome]
    dsimp only
    have hname : substr path (lead.length + front.length + 1)
        (some (lead.length + ((front ++ slash :: base).length - 1) -
          (lead.length + front.length))) = some base := by
      rw [substr_some (by rw [h.eq]; simp only [List.length_append, List.length_cons]; omega),
        Nat.add_assoc, ← List.drop_drop, hdrop, List.append_assoc, ← List.drop_drop,
        List.drop_left, List.cons_append, List.drop_one, List.tail_cons,
        show lead.length + ((front ++ slash :: base).length - 1) -
          (lead.length + front.length) = base.length by
            rw [List.length_append, List.length_cons]; omega, List.take_left]
    rw [hname]
    cases front with
    | nil => exact ⟨_, base, if_pos rfl, rfl, hbne, .root rfl hbase'⟩
    | cons z front =>
      refine ⟨z :: front, base, ?_, rfl, hbne, .inner rfl (List.cons_ne_nil z front) hbase'⟩
      rw [if_neg (by rw [List.length_cons]; omega), substr_some hle, hdrop, List.append_assoc,
        Nat.add_sub_cancel_left, List.take_left]

end Parts

/-! ### Going up -/

section Up

variable {path : List UInt8}

theorem Named.stripped_ne_nil (h : Named path) : stripped path ≠ [] := by
  obtain ⟨c, hc, hspace, hne⟩ := h
  intro hnil
  exact hne (beq_iff_eq.mp (List.rdropWhile_eq_nil_iff.mp hnil c (mem_trimmed hc hspace)))

/-- Of a path with slashes and then whitespace, the first slash is left. -/
theorem getDirName_of_stripped_eq_nil (hroot : Rooted path) (hnil : stripped path = []) :
    getDirName path = some [slash] := by
  obtain ⟨x, rest, rfl, hx⟩ := hroot
  have hslash : ∀ c ∈ trimmed (x :: rest), c = slash := fun c hc =>
    beq_iff_eq.mp (List.rdropWhile_eq_nil_iff.mp hnil c hc)
  obtain rfl := hslash x (mem_trimmed List.mem_cons_self hx)
  have hdrop : (slash :: rest).drop 0 = [] ++ slash :: rest := rfl
  have hfirst : findFrom (fun c => !isSpace c) (slash :: rest) 0 = some 0 :=
    findFrom_of_cut hdrop (fun _ hc => absurd hc List.not_mem_nil) rfl
  obtain hall | ⟨front, y, trail, hcut, hy, htrail⟩ :=
    exists_last_cut (fun c => !isSpace c) (slash :: rest)
  · exact absurd (hall slash List.mem_cons_self) (by decide)
  have htrim : trimmed (slash :: rest) = front ++ [y] := by
    simp only [Bool.not_eq_false', Bool.not_eq_true'] at hy htrail
    rw [trimmed, List.dropWhile_cons_of_neg (by decide), hcut, rdropWhile_of_cut hy htrail]
  rw [htrim] at hslash
  have hloop : removeSlashes (slash :: rest) (0 + front.length) = 0 := by
    refine removeSlashes_eq front.length (.inl rfl) fun i hi => ?_
    have hlt : i + 1 < (front ++ [y]).length := by
      rw [List.length_append, List.length_singleton]
      omega
    have hget : (slash :: rest)[i + 1]? = (front ++ [y])[i + 1]? := by
      rw [hcut, ← List.singleton_append, ← List.append_assoc, List.getElem?_append_left hlt]
    rw [Nat.zero_add, hget, List.getElem?_eq_getElem hlt]
    exact congrArg some (hslash _ (List.getElem_mem hlt))
  have hlast : findLast (fun c => !isSpace c) (slash :: rest) = some front.length := by
    rw [hcut]
    exact findLast_of_cut (p := fun c => !isSpace c) hy htrail
  rw [Nat.zero_add] at hloop
  rw [getDirName, pathPositions, hfirst, hlast]
  dsimp only
  rw [hloop]
  rfl

/-- **One step up** gives `"."` or a shorter path, where the path is not all slashes. -/
theorem getDirName_step (h : Rooted path ∨ Named path) (hstop : ¬ Stop path) :
    ∃ dir, getDirName path = some dir ∧
      (dir = [dot] ∨ dir.length < path.length ∧ Rooted dir) := by
  by_cases hnil : stripped path = []
  · have hroot := h.resolve_right fun hnamed => hnamed.stripped_ne_nil hnil
    refine ⟨[slash], getDirName_of_stripped_eq_nil hroot hnil, .inr ⟨?_, slash, [], rfl, rfl⟩⟩
    obtain ⟨x, rest, rfl, hx⟩ := hroot
    obtain rfl := beq_iff_eq.mp
      (List.rdropWhile_eq_nil_iff.mp hnil x (mem_trimmed List.mem_cons_self hx))
    cases rest with
    | nil =>
      refine absurd (.inr ⟨List.cons_ne_nil _ _, fun c hc => ?_⟩) hstop
      exact List.mem_singleton.mp hc
    | cons y rest => exact Nat.succ_lt_succ (Nat.succ_pos _)
  · obtain ⟨lead, slashes, trail, hparts⟩ := exists_parts hnil
    obtain ⟨dir, base, hdir, -, hbase, hsplit⟩ := hparts.splitsInto
    have hlen := congrArg List.length hparts.eq
    simp only [List.length_append] at hlen
    have hpos := List.length_pos_iff.mpr hbase
    obtain ⟨x, rest, hfirst, hx⟩ := hparts.first
    refine ⟨dir, hdir, ?_⟩
    generalize stripped path = t at hsplit hlen hfirst
    cases hsplit with
    | plain _ => exact .inl rfl
    | root ht _ =>
      right
      rw [ht, List.length_cons] at hlen
      exact ⟨by rw [List.length_singleton]; omega, slash, [], rfl, rfl⟩
    | inner ht hne _ =>
      right
      obtain ⟨z, dir, rfl⟩ := List.exists_cons_of_ne_nil hne
      rw [hfirst, List.cons_append] at ht
      obtain ⟨rfl, hrest⟩ := List.cons.inj ht
      rw [hfirst, hrest, List.length_cons, List.length_append, List.length_cons] at hlen
      exact ⟨by rw [List.length_cons]; omega, x, dir, rfl, hx⟩

theorem Rooted.length_pos (h : Rooted path ∨ Named path) : 0 < path.length := by
  obtain ⟨x, rest, rfl, -⟩ | ⟨c, hc, -⟩ := h
  · exact Nat.succ_pos _
  · exact List.length_pos_of_mem hc

/-- **Going up ends**, and each step gives `"."` or a shorter path. -/
theorem exists_dirNames_stop (h : Rooted path ∨ Named path) :
    ∃ n ≤ path.length, ∃ last, dirNames n path = some last ∧ Stop last ∧
      ∀ k < n, ∃ q r, dirNames k path = some q ∧ getDirName q = some r ∧
        (r ≠ [dot] → r.length < q.length) := by
  induction hlen : path.length using Nat.strongRecOn generalizing path with
  | ind n ih =>
    subst hlen
    by_cases hstop : Stop path
    · exact ⟨0, Nat.zero_le _, path, rfl, hstop, fun k hk => absurd hk (Nat.not_lt_zero k)⟩
    obtain ⟨dir, hdir, hcase⟩ := getDirName_step h hstop
    have hstep : ∀ n, dirNames (n + 1) path = dirNames n dir := fun n => by
      rw [dirNames, hdir, Option.bind_some]
    obtain rfl | ⟨hlt, hroot⟩ := hcase
    · refine ⟨1, Rooted.length_pos h, [dot], hstep 0, .inl rfl, fun k hk => ?_⟩
      obtain rfl : k = 0 := Nat.lt_one_iff.mp hk
      exact ⟨path, [dot], rfl, hdir, fun hne => absurd rfl hne⟩
    · obtain ⟨n, hn, last, hlast, hend, hshorter⟩ := ih dir.length hlt (.inl hroot) rfl
      refine ⟨n + 1, by omega, last, (hstep n).trans hlast, hend, fun k hk => ?_⟩
      cases k with
      | zero => exact ⟨path, dir, rfl, hdir, fun _ => hlt⟩
      | succ k =>
        rw [hstep k]
        exact hshorter k (Nat.lt_of_succ_lt_succ hk)

/-- The recursion of `MkDir` is no deeper than the path is long. -/
theorem exists_mkDir {σ : Type} {fs : FileSystem σ} (hroots : fs.HasRoots) (fuel : ℕ) (state : σ)
    (h : Rooted path ∨ Named path) (hfuel : path.length < fuel) :
    ∃ result, mkDir fs fuel state path = some result := by
  induction fuel generalizing path with
  | zero => exact absurd hfuel (Nat.not_lt_zero _)
  | succ fuel ih =>
    rw [mkDir]
    by_cases hisDir : fs.isDir state path = true
    · exact ⟨_, if_pos hisDir⟩
    rw [if_neg hisDir]
    have hstop : ¬ Stop path := by
      rintro (rfl | ⟨hne, hslashes⟩)
      · exact hisDir (hroots.isDir_dot state)
      · exact hisDir (hroots.isDir_slashes state path hne hslashes)
    obtain ⟨dir, hdir, hcase⟩ := getDirName_step h hstop
    have hparent : ∃ result, mkDir fs fuel state dir = some result := by
      obtain rfl | ⟨hlt, hroot⟩ := hcase
      · have hpos := Rooted.length_pos h
        obtain ⟨fuel, rfl⟩ := Nat.exists_eq_succ_of_ne_zero (show fuel ≠ 0 by omega)
        exact ⟨_, if_pos (hroots.isDir_dot state)⟩
      · exact ih (.inl hroot) (by omega)
    obtain ⟨⟨ok, state'⟩, hparent⟩ := hparent
    rw [hdir, Option.bind_some]
    by_cases hfile : (fs.isExist state dir && !fs.isDir state dir) = true
    · exact ⟨_, if_pos hfile⟩
    rw [if_neg hfile]
    dsimp only
    by_cases hexist : fs.isExist state dir = true
    · rw [if_pos hexist]
      exact ⟨_, rfl⟩
    · rw [if_neg hexist, hparent, Option.bind_some]
      dsimp only
      by_cases hok : ok = true
      · exact ⟨_, if_pos hok⟩
      · exact ⟨_, if_neg hok⟩

/-- **Directory and name of a path**, going up from it, and what that means for `MkDir`. -/
theorem path_names (h : Named path) :
    (∃ dir base, getDirName path = some dir ∧ getBaseName path = some base ∧ base ≠ [] ∧
      SplitsInto (stripped path) dir base) ∧
    (∃ n ≤ path.length, ∃ last, dirNames n path = some last ∧ Stop last ∧
      ∀ k < n, ∃ q r, dirNames k path = some q ∧ getDirName q = some r ∧
        (r ≠ [dot] → r.length < q.length)) ∧
    ∀ (σ : Type) (fs : FileSystem σ) (state : σ) (fuel : ℕ), fs.HasRoots → path.length < fuel →
      ∃ result, mkDir fs fuel state path = some result := by
  refine ⟨?_, exists_dirNames_stop (.inr h), fun σ fs state fuel hroots hfuel => ?_⟩
  · obtain ⟨lead, slashes, trail, hparts⟩ := exists_parts h.stripped_ne_nil
    exact hparts.splitsInto
  · exact exists_mkDir hroots fuel state (.inr h) hfuel

end Up

/-- A file system of directories, those in a list and the two roots. -/
def directories : FileSystem (List (List UInt8)) where
  isDir made path := path == [dot] || path.all (· == slash) || made.elem path
  isExist made path := path == [dot] || path.all (· == slash) || made.elem path
  mkdir made path := (true, path :: made)

theorem directories_hasRoots : directories.HasRoots where
  isDir_dot _ := rfl
  isDir_slashes made path _ hslashes := by
    have hall : path.all (· == slash) = true :=
      List.all_eq_true.mpr fun c hc => beq_iff_eq.mpr (hslashes c hc)
    simp only [directories, hall, Bool.or_true, Bool.true_or]

/-- `" a/b/ "`, where nothing has been made. -/
theorem path_names_relative :
    (∃ dir base, getDirName [32, 97, 47, 98, 47, 32] = some dir ∧
      getBaseName [32, 97, 47, 98, 47, 32] = some base ∧ base ≠ [] ∧
      SplitsInto [97, 47, 98] dir base) ∧
    ∃ result, mkDir directories 7 [] [32, 97, 47, 98, 47, 32] = some result := by
  have hnamed : Named [32, 97, 47, 98, 47, 32] := ⟨97, by decide, by decide, by decide⟩
  obtain ⟨hnames, -, hmkDir⟩ := path_names hnamed
  exact ⟨hnames, hmkDir _ directories [] 7 directories_hasRoots (by decide)⟩

end Lsf.StringExt
