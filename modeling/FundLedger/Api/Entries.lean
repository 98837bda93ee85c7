import FundLedger.Database
import FundLedger.Lib.Cursor

/-!
# The entries of an account

`AccountEntriesView` pages through the entries of an account, the newest first.
The cursors are those of the pagination class of the framework, which
`Lib.Reads` follows: a page is the first 50 rows at or after the cursor's
position, less the rows tied there that earlier pages have shown.

The ordering is by `created_at` alone, and all entries of one transfer have the
same one.  `account_entries_once_iff` is what follows from that.
-/

namespace FundLedger

open Lib

/-- `EntryCursorPagination`: `page_size`, and the cap that the framework puts on
an offset. -/
def entryPaging : Paging where
  size := 50
  cutoff := 1000

/-- `AccountEntriesView.get_queryset`. -/
def viewEntries (db : Db) (account : Uuid) : List Entry :=
  db.entries.rows.filter fun e => e.account = account

/-- A way in which the database answers `ORDER BY created_at DESC`. -/
abbrev EntryOrder := Descending Entry.createdAt

/-- Following the next links from the first page until there is none. -/
def PagesThrough (db : Db) (account : Uuid) (orders : ℕ → EntryOrder) (seen : List Entry) : Prop :=
  Reads entryPaging Entry.createdAt (viewEntries db account) orders .start seen

/-- **Each entry is shown exactly once, whatever order the database has for ties,
exactly when no page ends between two entries of the same time.** -/
theorem account_entries_once_iff (db : Db) (account : Uuid) :
    (∀ orders, ∃ seen, PagesThrough db account orders seen ∧
      seen.Perm (viewEntries db account)) ↔
    NoBreakInTie 50 (descKeys Entry.createdAt (viewEntries db account)) := by
  have hnodup : (viewEntries db account).Nodup := (List.Nodup.of_map _ db.entries.nodup).filter _
  exact reads_perm_iff (p := entryPaging) (by decide) (by decide) hnodup

/-- The entries of one capital call with 51 partners, on the cash account. -/
def callOf51 : Db where
  funds := .empty
  lps := .empty
  commitments := .empty
  periods := .empty
  fxRates := .empty
  accounts := .empty
  transfers := .empty
  entries := ⟨(List.range 51).map fun i =>
    { id := i, transfer := 100, account := 1, direction := .DEBIT, amount := 10000, currency := "GBP"
      fxRate := none, baseAmount := 10000, createdAt := 7 }, by decide +kernel⟩
  capitalCalls := .empty
  distributions := .empty
  memberships := .empty

/-- **With 51 entries of one time, an entry may be shown twice and another not
at all.** -/
theorem callOf51_repeats : ∃ orders, ∀ seen, PagesThrough callOf51 1 orders seen →
    ¬seen.Nodup ∧ ¬seen.Perm (viewEntries callOf51 1) := by
  have hnodup : (viewEntries callOf51 1).Nodup :=
    (List.Nodup.of_map _ callOf51.entries.nodup).filter _
  have hall : (viewEntries callOf51 1).filter ((⟨none, 0⟩ : Cursor Timestamp).reaches
      Entry.createdAt) = viewEntries callOf51 1 := List.filter_true _
  have hbreak : ¬NoBreakInTie entryPaging.size (descKeys Entry.createdAt
      ((viewEntries callOf51 1).filter ((⟨none, 0⟩ : Cursor Timestamp).reaches
        Entry.createdAt))) := by
    rw [hall]
    intro h
    exact h 1 7 one_pos (by decide +kernel) (by decide +kernel)
  obtain ⟨orders, hrepeated⟩ :=
    exists_repeated (p := entryPaging) (by decide) (by decide) hnodup _ none rfl hbreak
  refine ⟨orders, fun seen hreads => ⟨hrepeated seen hreads, fun hperm => ?_⟩⟩
  exact hrepeated seen hreads (hperm.nodup_iff.mpr hnodup)

end FundLedger
