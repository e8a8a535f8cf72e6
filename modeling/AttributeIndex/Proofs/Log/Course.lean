import AttributeIndex.Proofs.Log.Likeness

namespace AttributeIndex

open AttributeIndex.Action AttributeIndex.Frame

namespace LogTable

variable {path : String} {refusals : SortedMap String IoError} {frames : List Frame}
  {table flushed compacted left : LogTable}

theorem readable_of_copyValues (apart : siblingPath table.path ≠ table.path)
    {entries : List (Bytes × Location)} {pending : Bytes}
    (copied : copyValues entries pending table = (.ok (), left)) :
    ∀ entry ∈ entries, ∃ value, table.readValue entry.2 = .ok value := by
  induction entries generalizing table pending with
  | nil => simp
  | cons entry entries ih =>
    obtain ⟨key, location⟩ := entry
    cases framed : table.readValue location >>= fun value => Frame.write ⟨.put, key, value⟩ with
    | error failure =>
      simp only [copyValues, framed] at copied
      cases copied
    | ok frame =>
      obtain ⟨value, read, -⟩ := bind_eq_ok.1 framed
      rw [copyValues_cons framed] at copied
      refine List.forall_mem_cons.2 ⟨⟨value, read⟩, fun other member => ?_⟩
      have found := ih (by exact apart) copied other member
      simpa only [readValue, file_withSibling apart] using found

theorem Flushes.copied_of_compact (flushes : Flushes table flushed)
    (done : compact table = (.ok (), compacted)) :
    flushed.files.refusals.find? (siblingPath flushed.path) = none ∧
      ∃ after, copyValues flushed.state.directory.entries [] (flushed.withSibling []) =
        (.ok (), after) := by
  cases refused : flushed.files.refusals.find? (siblingPath flushed.path) with
  | some failure =>
    rw [flushes.compact_of_refused refused] at done
    cases done
  | none =>
    rw [flushes.compact_of_granted refused, bind_apply] at done
    cases copied : copyValues flushed.state.directory.entries [] (flushed.withSibling []) with
    | mk outcome after =>
      rw [copied] at done
      cases outcome with
      | error failure => cases done
      | ok finished => exact ⟨rfl, after, rfl⟩

theorem Logs.compact_eq (logs : Logs path refusals frames table) (apart : siblingPath path ≠ path)
    (done : compact table = (.ok (), compacted)) :
    ∃ flushed, Flushes table flushed ∧ flushed.Readable ∧ flushed.values = contentsOf frames ∧
      compacted = rewritten path flushed.files (contentsOf frames) := by
  rcases closed_or_flushes table with closed | ⟨flushed, flushes⟩
  · rw [compact_of_closed closed] at done
    cases done
  · have held := (flushes.sameLog logs.path_eq).logs logs
    obtain ⟨granted, after, copied⟩ := flushes.copied_of_compact done
    rw [held.refusals_eq, held.path_eq] at granted
    have distinct : siblingPath flushed.path ≠ flushed.path := held.path_eq ▸ apart
    -- The copy holds every value, so each was read, from the log and not from its sibling.
    have readable : flushed.Readable := by
      intro key location found
      obtain ⟨value, read⟩ := readable_of_copyValues (by exact distinct) copied (key, location)
        (SortedMap.find?_eq_some.1 found)
      rw [readValue, file_withSibling distinct] at read
      exact ⟨value, read⟩
    have values_eq : flushed.values = contentsOf frames :=
      held.values_eq (by rw [flushes.pending_eq]; rfl)
    rw [held.recalls.compact_eq flushes granted apart readable, values_eq] at done
    cases done
    exact ⟨flushed, flushes, readable, values_eq, rfl⟩

theorem Logs.rewritten (logs : Logs path refusals frames table) (files : Files) :
    Logs path files.refusals (putsOf (contentsOf frames))
      (LogTable.rewritten path files (contentsOf frames)) :=
  logs_ofFrames path (files.erase (siblingPath path)) logs.recalls.fits_putsOf

theorem compact_failed {failure : IoError} (failed : compact table = (.error failure, left)) :
    table.pending = none ∧ left = table ∨
      ∃ flushed, Flushes table flushed ∧
        (left = flushed ∨ ∃ content, left = flushed.withSibling content) := by
  rcases closed_or_flushes table with closed | ⟨flushed, flushes⟩
  · rw [compact_of_closed closed] at failed
    cases failed
    exact .inl ⟨closed, rfl⟩
  · refine .inr ⟨flushed, flushes, ?_⟩
    cases refused : flushed.files.refusals.find? (siblingPath flushed.path) with
    | some failure =>
      rw [flushes.compact_of_refused refused] at failed
      cases failed
      exact .inl rfl
    | none =>
      have copies : (copyValues flushed.state.directory.entries []).Meets (flushed.withSibling []) _ _ :=
        copyValues_meets _ _
      rw [flushes.compact_of_granted refused, bind_apply] at failed
      cases copied : copyValues flushed.state.directory.entries [] (flushed.withSibling []) with
      | mk outcome after =>
        rw [copied] at failed
        cases outcome with
        | ok finished => cases failed
        | error failure =>
          obtain ⟨content, rfl⟩ := copies.failed_of copied
          cases failed
          exact .inr ⟨content, withSibling_withSibling _ _⟩

theorem Logs.step (logs : Logs path refusals frames table) (granted : refusals.find? path = none)
    (step : Step) (apart : step = .compact → siblingPath path ≠ path) :
    ∃ later, Logs path refusals later (step.perform table).2 := by
  cases step with
  | ask request =>
    -- That frames are kept is known for some path and some refusals; these two stay as they are.
    obtain ⟨_, _, later, held⟩ := faithful.perform ⟨path, refusals, frames, logs⟩ request
    obtain ⟨_, recalls⟩ := Recalling.request ⟨frames, logs.recalls⟩ request
    obtain rfl := held.path_eq.symm.trans recalls.path_eq
    obtain rfl := held.refusals_eq.symm.trans recalls.refusals_eq
    exact ⟨later, held⟩
  | reopen =>
    obtain ⟨again, opens, -, held⟩ := logs.reopen granted
    refine ⟨frames, left_map ?_⟩
    rw [reopen_of_ok logs.path_eq opens]
    exact held
  | compact =>
    have distinct := apart rfl
    show ∃ later, Logs path refusals later ((_ <$> LogTable.compact) table).2
    rw [map_apply]
    cases performed : LogTable.compact table with
    | mk outcome after =>
      cases outcome with
      | ok done =>
        obtain ⟨flushed, flushes, -, -, rfl⟩ := logs.compact_eq distinct performed
        have refusals_eq := ((flushes.sameLog logs.path_eq).logs logs).refusals_eq
        exact ⟨_, refusals_eq ▸ logs.rewritten flushed.files⟩
      | error failure =>
        rcases compact_failed performed with ⟨-, rfl⟩ | ⟨flushed, flushes, same⟩
        · exact ⟨frames, logs⟩
        · have held := (flushes.sameLog logs.path_eq).logs logs
          rcases same with rfl | ⟨content, rfl⟩
          · exact ⟨frames, held⟩
          · exact ⟨frames, (sameLog_withSibling held.path_eq distinct content).logs held⟩

theorem Logs.steps (logs : Logs path refusals frames table) (granted : refusals.find? path = none)
    (steps : List Step) (apart : .compact ∈ steps → siblingPath path ≠ path) :
    ∃ later, Logs path refusals later (outcomes Step.perform steps table).2 := by
  induction steps generalizing table frames with
  | nil => exact ⟨frames, logs⟩
  | cons first rest ih =>
    obtain ⟨later, held⟩ := logs.step granted first fun same => apart (same ▸ List.mem_cons_self)
    exact ih held fun member => apart (List.mem_cons_of_mem _ member)

theorem exists_ofFrames_of_openAt {files after : Files}
    (opens : openAt path files = (.ok table, after)) :
    ∃ frames, table = ofFrames path files frames ∧ ∀ frame ∈ frames, frame.Fits := by
  have granted := granted_of_openAt opens
  obtain ⟨frames, rest, parts⟩ := exists_parts (files.content path)
  by_cases unfinished : Unfinished rest
  · rw [openAt_of_unfinished granted parts unfinished] at opens
    cases opens
    exact ⟨frames, rfl, parts.fits⟩
  · rw [openAt_of_damaged granted parts unfinished] at opens
    cases opens

theorem openIn_of_frames {tree : FileTree} (granted : (tree.lend path).refusals.find? path = none)
    (fits : ∀ frame ∈ frames, frame.Fits)
    (content_eq : (tree.lend path).content path = encodeAll frames) :
    openIn path tree = (.ok (ofFrames path (tree.lend path) frames),
      tree.takeBack path (ofFrames path (tree.lend path) frames).files) := by
  have parts : Parts ((tree.lend path).content path) frames [] := by
    have whole := Parts.of_unfinished fits unfinished_nil
    rwa [List.append_nil, ← content_eq] at whole
  exact openIn_of_openAt (openAt_of_unfinished granted parts unfinished_nil)

theorem exists_logs {tree after : FileTree} {start : LogTable}
    (opened : openIn path tree = (.ok start, after)) (steps : List Step)
    (apart : .compact ∈ steps → siblingPath path ≠ path) :
    ∃ frames, Logs path (tree.lend path).refusals frames (outcomes Step.perform steps start).2 := by
  obtain ⟨files, opens⟩ := exists_openAt_of_openIn opened
  obtain ⟨frames, rfl, fits⟩ := exists_ofFrames_of_openAt opens
  exact (logs_ofFrames path _ fits).steps (granted_of_openAt opens) steps apart

end LogTable

end AttributeIndex
