/-
The two routes to a value: reading it from a text, and decoding what the text was parsed to. For
every way to build a codec both routes accept the same texts and come to the same value; reading
also ends where parsing does, so a codec inside another can be replaced by its decoder.
-/
import StackBridge.Proofs.Digits
import StackBridge.Proofs.RoundTrip
import StackBridge.Proofs.SkippedValues

namespace StackBridge

open Json (Cursor Reader)

section Results

variable {ε α : Type}

@[simp]
theorem pure_eq_ok_iff {found value : α} :
    (pure found : Except ε α) = .ok value ↔ found = value := by
  simp [pure, Except.pure]

@[simp]
theorem throw_eq_ok_iff {fault : ε} {value : α} :
    (throw fault : Except ε α) = .ok value ↔ False := by
  simp [throw, throwThe, MonadExceptOf.throw]

end Results

namespace Json.Reader

variable {α β γ : Type} {cursor after last : Cursor}

/-- Whether a reader answers what another one's answer is converted to, and where that ends. -/
def Mirrors (reader : Reader β) (source : Reader α) (convert : α → Except Mismatch β) : Prop :=
  ∀ ⦃cursor found after⦄, source.Answers cursor found after →
    ∀ value last, reader.Answers cursor value last ↔ last = after ∧ convert found = .ok value

/-- What follows a reader whose answers are known, all of which end at one place. -/
theorem bind_iff_of_answers_iff {reader : Reader α} {known : α → Prop}
    (hreader : ∀ value last, reader.Answers cursor value last ↔ last = after ∧ known value)
    {next : α → Reader β} {value : β} :
    (reader >>= next).Answers cursor value last ↔
      ∃ held, known held ∧ (next held).Answers after value last := by
  simp only [answers_bind_iff, hreader]
  constructor
  · rintro ⟨held, _, ⟨rfl, hheld⟩, hvalue⟩
    exact ⟨held, hheld, hvalue⟩
  · rintro ⟨held, hheld, hvalue⟩
    exact ⟨held, _, ⟨rfl, hheld⟩, hvalue⟩

/-- Lists mirror if their items do. -/
theorem Items.itemsFrom_mirrors {reader : Reader β} {source : Reader α}
    {convert : α → Except Mismatch β} (hmirrors : reader.Mirrors source convert) {isFirst : Bool}
    {found : List α} (hitems : Items source isFirst cursor found after) {read : List β}
    (hfirst : read.isEmpty = isFirst) {steps : Nat} {values : List β} :
    (itemsFrom reader steps read).Answers cursor values last ↔
      found.length < steps ∧ last = after ∧
        ∃ news, found.mapM convert = .ok news ∧ read.reverse ++ news = values := by
  induction hitems generalizing read steps with
  | done hnext =>
      cases steps with
      | zero => simp [itemsFrom]
      | succ steps =>
          simp [itemsFrom, hfirst, hnext.iff_eq]
  | more hnext hvalue hrest ih =>
      cases steps with
      | zero => simp [itemsFrom]
      | succ steps =>
          rw [itemsFrom, hfirst, hnext.bind_iff, if_pos rfl,
            bind_iff_of_answers_iff (hmirrors hvalue)]
          simp only [ih List.isEmpty_cons, List.mapM_cons, bind_eq_ok_iff, pure_eq_ok_iff,
            List.length_cons, Nat.add_lt_add_iff_right]
          constructor
          · rintro ⟨value, hvalue, hsteps, rfl, news, hnews, rfl⟩
            exact ⟨hsteps, rfl, _, ⟨value, hvalue, news, hnews, rfl⟩, by simp⟩
          · rintro ⟨hsteps, rfl, _, ⟨value, hvalue, news, hnews, rfl⟩, rfl⟩
            exact ⟨value, hvalue, hsteps, rfl, news, hnews, by simp⟩

theorem Items.mirrors {reader : Reader β} {source : Reader α} {convert : α → Except Mismatch β}
    (hmirrors : reader.Mirrors source convert) {found : List α}
    (hitems : Items source true cursor found after) (hcount : found.length ≤ cursor.rest.length)
    {values : List β} :
    (items reader).Answers cursor values last ↔ last = after ∧ found.mapM convert = .ok values := by
  simp [items, hitems.itemsFrom_mirrors hmirrors List.isEmpty_nil, Nat.lt_succ_of_le hcount]

/-- Whether a reader of one member behind its name takes in what a value behind the colon is. -/
def TakesIn (member : String → β → Reader β) (source : Reader α)
    (take : β → String × α → Except Mismatch β) : Prop :=
  ∀ ⦃named colons between name value⦄, colon.Answers named () colons →
    source.Answers colons value between → ∀ state next last,
      (member name state).Answers named next last ↔
        last = between ∧ take state (name, value) = .ok next

/-- Objects mirror if each member is taken in alike on both routes. -/
theorem Members.membersFrom_mirrors {member : String → β → Reader β} {source : Reader α}
    {take : β → String × α → Except Mismatch β} (hmember : TakesIn member source take)
    {isFirst : Bool} {found : List (String × α)}
    (hmembers : Members source isFirst cursor found after) {steps : Nat} {state final : β} :
    (membersFrom member steps isFirst state).Answers cursor final last ↔
      found.length < steps ∧ last = after ∧ found.foldlM take state = .ok final := by
  induction hmembers generalizing steps state with
  | done hnext =>
      cases steps with
      | zero => simp [membersFrom]
      | succ steps => simp [membersFrom, hnext.bind_iff]
  | more hnext hkey hcolon hvalue hrest ih =>
      cases steps with
      | zero => simp [membersFrom]
      | succ steps =>
          rw [membersFrom, hnext.bind_iff, if_pos rfl, hkey.bind_iff,
            bind_iff_of_answers_iff (hmember hcolon hvalue state)]
          simp only [ih, List.foldlM_cons, bind_eq_ok_iff, List.length_cons,
            Nat.add_lt_add_iff_right]
          constructor
          · rintro ⟨next, hnext, hsteps, rfl, hfinal⟩
            exact ⟨hsteps, rfl, next, hnext, hfinal⟩
          · rintro ⟨hsteps, rfl, next, hnext, hfinal⟩
            exact ⟨next, hnext, hsteps, rfl, hfinal⟩

theorem Members.mirrors {member : String → β → Reader β} {source : Reader α}
    {take : β → String × α → Except Mismatch β} (hmember : TakesIn member source take)
    {found : List (String × α)} (hmembers : Members source true cursor found after)
    (hcount : found.length ≤ cursor.rest.length) {start final : β} :
    (members member start).Answers cursor final last ↔
      last = after ∧ found.foldlM take start = .ok final := by
  simp [members, hmembers.membersFrom_mirrors hmember, Nat.lt_succ_of_le hcount]

end Json.Reader

namespace Codec

variable {α β : Type} {cursor after : Cursor}

/-- Whether reading a text comes to what the value of the text is decoded to. -/
def Tracks (codec : Codec α) : Prop :=
  ∀ depth, (codec.read depth).Mirrors (Reader.value depth) codec.decode

theorem answers_readToken_iff {reader : Char → Reader α} {c : Char} {value : α}
    (hhead : cursor.token.rest.head? = some c) :
    (readToken reader).Answers cursor value after ↔
      (reader c).Answers cursor.token value after := by
  simp [readToken, hhead]

@[simp]
theorem answers_checked_iff {result : Except Mismatch α} {value : α} :
    (checked result).Answers cursor value after ↔ after = cursor ∧ result = .ok value := by
  cases result <;> simp [checked]

@[simp]
theorem wrongKind_eq_ok_iff {wanted : String} {json : Json} {value : α} :
    wrongKind wanted json = .ok value ↔ False :=
  throw_eq_ok_iff

theorem tracks_string : Codec.string.Tracks := by
  intro depth cursor json after hjson value last
  obtain ⟨c, hhead, hbegins⟩ := hjson.begins
  rw [Codec.string, answers_readToken_iff hhead]
  cases hbegins with
  | string hstring => simp [hstring.iff_eq]
  | number hdigit => simp [ne_of_isDigit hdigit]
  | _ => simp

theorem tracks_bool : Codec.bool.Tracks := by
  intro depth cursor json after hjson value last
  obtain ⟨c, hhead, hbegins⟩ := hjson.begins
  rw [Codec.bool, answers_readToken_iff hhead]
  cases hbegins with
  | true hword => simp [hword.iff_eq]
  | false hword => simp [hword.iff_eq]
  | number hdigit => simp [ne_of_isDigit hdigit]
  | _ => simp

theorem tracks_numeric {wanted : String} {encode : α → Json} {check : Number → Except Mismatch α} :
    (numeric wanted encode check).Tracks := by
  intro depth cursor json after hjson value last
  obtain ⟨c, hhead, hbegins⟩ := hjson.begins
  rw [numeric, answers_readToken_iff hhead]
  cases hbegins with
  | negative hnumber => simp [hnumber.iff_eq]
  | number hdigit hnumber => simp [ne_of_isDigit hdigit, hdigit, hnumber.iff_eq]
  | _ => simp

theorem tracks_any : Codec.any.Tracks := by
  intro depth cursor json after hjson value last
  simp [Codec.any, hjson.iff_eq]

theorem decode_option_iff {codec : Codec α} {json : Json} (hjson : json ≠ .null)
    {value : Option α} :
    codec.option.decode json = .ok value ↔
      ∃ held, codec.decode json = .ok held ∧ some held = value := by
  cases json with
  | null => exact (hjson rfl).elim
  | _ => exact map_eq_ok_iff

theorem Tracks.option {codec : Codec α} (hcodec : codec.Tracks) : codec.option.Tracks := by
  intro depth cursor json after hjson value last
  obtain ⟨c, hhead, hbegins⟩ := hjson.begins
  have hheld := hcodec depth (Reader.answers_value_token_iff.2 hjson)
  by_cases hnull : c = 'n'
  · subst hnull
    cases hbegins with
    | null hword => simp [Codec.option, hhead, hword.iff_eq]
    | number hdigit => exact absurd hdigit (by decide)
  · have hsolid : json ≠ .null := by
      rintro rfl
      cases hbegins
      exact hnull rfl
    have hread : (codec.option.read depth).Answers cursor value last ↔
        (some <$> codec.read depth).Answers cursor.token value last := by
      simp [Codec.option, hhead, hnull]
    rw [hread, decode_option_iff hsolid]
    simp [hheld, and_assoc]

theorem Tracks.list {codec : Codec α} (hcodec : codec.Tracks) : codec.list.Tracks := by
  intro depth cursor json after hjson value last
  obtain ⟨c, hhead, hbegins⟩ := hjson.begins
  rw [Codec.list, answers_readToken_iff hhead]
  cases hbegins with
  | array hdepth hitems hcount hclose =>
      subst hdepth
      simp [hitems.mirrors (hcodec _) hcount, hclose.iff_eq]
      exact and_comm
  | number hdigit => simp [ne_of_isDigit hdigit]
  | _ => simp

theorem Tracks.mapped {codec : Codec α} (hcodec : codec.Tracks) (make : α → β) (view : β → α) :
    (codec.mapped make view).Tracks := by
  intro depth cursor json after hjson value last
  simp [Codec.mapped, hcodec depth hjson, map_eq_ok_iff, and_assoc]

theorem foldlM_insert_eq_ok_iff {decode : Json → Except Mismatch α}
    {members : List (String × Json)} {start final : SortedMap α} :
    members.foldlM (fun values member => (values.insert member.1 ·) <$> decode member.2) start =
        .ok final ↔
      ∃ entries, members.mapM (fun member => (member.1, ·) <$> decode member.2) = .ok entries ∧
        entries.foldl (fun values entry => values.insert entry.1 entry.2) start = final := by
  induction members generalizing start with
  | nil => simp
  | cons member rest ih =>
      simp only [List.foldlM_cons, List.mapM_cons, bind_eq_ok_iff, map_eq_ok_iff, pure_eq_ok_iff,
        ih]
      constructor
      · rintro ⟨_, ⟨value, hvalue, rfl⟩, entries, hentries, rfl⟩
        exact ⟨_, ⟨_, ⟨value, hvalue, rfl⟩, entries, hentries, rfl⟩, rfl⟩
      · rintro ⟨_, ⟨_, ⟨value, hvalue, rfl⟩, entries, hentries, rfl⟩, rfl⟩
        exact ⟨_, ⟨value, hvalue, rfl⟩, entries, hentries, rfl⟩

theorem foldl_insert_eq_ofList (entries : List (String × α)) :
    entries.foldl (fun values entry => values.insert entry.1 entry.2) SortedMap.empty =
      SortedMap.ofList entries := by
  have hfold : ∀ values : SortedMap α,
      (entries.foldl (fun values entry => values.insert entry.1 entry.2) values).entries =
        entries.foldl (fun sorted entry => insertEntry entry.1 entry.2 sorted) values.entries := by
    induction entries with
    | nil => exact fun _ => rfl
    | cons entry rest ih => exact fun values => ih (values.insert entry.1 entry.2)
  rw [SortedMap.mk.injEq]
  exact hfold SortedMap.empty

/-- Maps are read alike on both routes if their values are. -/
theorem Tracks.map {codec : Codec α} (hcodec : codec.Tracks) : codec.map.Tracks := by
  intro depth cursor json after hjson value last
  obtain ⟨c, hhead, hbegins⟩ := hjson.begins
  rw [Codec.map, answers_readToken_iff hhead]
  cases hbegins with
  | @object inner _ _ hdepth hmembers hcount hclose =>
      subst hdepth
      have hmember : Reader.TakesIn (fun name (values : SortedMap α) => do
            Reader.colon
            return values.insert name (← codec.read inner)) (Reader.value inner)
          fun values member => (values.insert member.1 ·) <$> codec.decode member.2 := by
        intro named colons between name found hcolon hfound state next last
        rw [hcolon.bind_iff, Reader.bind_iff_of_answers_iff (hcodec inner hfound)]
        simp only [Reader.answers_pure_iff, map_eq_ok_iff]
        constructor
        · rintro ⟨held, hheld, hlast, hnext⟩
          exact ⟨hlast, held, hheld, hnext⟩
        · rintro ⟨hlast, held, hheld, hnext⟩
          exact ⟨held, hheld, hlast, hnext⟩
      simp only [if_true, Reader.answers_anchored_iff, Reader.deeper, Reader.answers_object_iff,
        hmembers.mirrors hmember hcount, foldlM_insert_eq_ok_iff, foldl_insert_eq_ofList, and_assoc,
        exists_eq_left, hclose.iff_eq, and_true, map_eq_ok_iff]
      exact and_comm
  | number hdigit => simp [ne_of_isDigit hdigit]
  | _ => simp

end Codec

namespace Fields

variable {σ τ : Type} {cursor inside last : Cursor}

/-- Whether the two routes agree on every field. -/
def Tracks {σ τ : Type} : Fields σ τ → Prop
  | .nil => True
  | .cons field rest => field.codec.Tracks ∧ rest.Tracks

/-- A member is read as it is decoded, and one that no field has is skipped. -/
theorem Tracks.takesIn {fields : Fields σ τ} (hfields : fields.Tracks) (depth : Nat) :
    Reader.TakesIn (fields.readMember depth) (Reader.value depth)
      fun slots member => fields.decodeMember member.1 member.2 slots := by
  intro named colons between name json hcolon hjson
  induction fields with
  | nil =>
      intro slots next last
      simp only [readMember]
      rw [hcolon.bind_iff, (Reader.skip_of_value hjson).bind_iff]
      simp [decodeMember]
  | cons field rest ih =>
      rintro ⟨slot, slots⟩ next last
      by_cases hname : name = field.name
      · cases slot with
        | some held => simp [readMember, decodeMember, hname]
        | none =>
            simp only [readMember, decodeMember, hname, if_true, Option.isSome_none,
              Bool.false_eq_true, if_false]
            rw [hcolon.bind_iff, Reader.bind_iff_of_answers_iff (hfields.1 depth hjson)]
            simp only [bind_eq_ok_iff, Reader.answers_pure_iff, pure_eq_ok_iff]
            constructor
            · rintro ⟨held, hheld, hlast, hnext⟩
              exact ⟨hlast, held, hheld, hnext⟩
            · rintro ⟨hlast, held, hheld, hnext⟩
              exact ⟨held, hheld, hlast, hnext⟩
      · simp only [readMember, decodeMember, hname, if_false]
        rw [Reader.bind_iff_of_answers_iff (ih hfields.2 slots)]
        simp only [bind_eq_ok_iff, Reader.answers_pure_iff, pure_eq_ok_iff]
        constructor
        · rintro ⟨held, hheld, hlast, hnext⟩
          exact ⟨hlast, held, hheld, hnext⟩
        · rintro ⟨hlast, held, hheld, hnext⟩
          exact ⟨held, hheld, hlast, hnext⟩

/-- The first value stands in front of what is read after it. -/
theorem answers_readItems_cons_iff {α : Type} {reader : Reader τ} {value : α} {values : α × τ} :
    (∃ between, (do return (value, ← reader) : Reader (α × τ)).Answers cursor values between ∧
        Reader.closeList.Answers between () last) ↔
      value = values.1 ∧ ∃ between, reader.Answers cursor values.2 between ∧
        Reader.closeList.Answers between () last := by
  simp only [Reader.answers_bind_iff, Reader.answers_pure_iff, Prod.ext_iff]
  constructor
  · rintro ⟨_, ⟨others, between, hothers, rfl, hvalue, rfl⟩, hclose⟩
    exact ⟨hvalue, _, hothers, hclose⟩
  · rintro ⟨hvalue, between, hothers, hclose⟩
    exact ⟨between, ⟨_, between, hothers, rfl, hvalue, rfl⟩, hclose⟩

theorem decodeItems_rest_iff {α : Type} {result : Except Mismatch (τ × List Json)} {value : α}
    {values : α × τ} :
    (do
        let (others, left) ← result
        return ((value, others), left) : Except Mismatch ((α × τ) × List Json)) =
        .ok (values, []) ↔ value = values.1 ∧ result = .ok (values.2, []) := by
  cases result with
  | error fault => simp [bind, Except.bind]
  | ok found => simp [bind, Except.bind, Prod.ext_iff, and_assoc]

/-- The items of a list fill the fields as they are decoded, if the list closes behind them. -/
theorem Tracks.items_fill {fields : Fields σ τ} (hfields : fields.Tracks) {depth index : Nat}
    (tooShort : Nat → Mismatch) {isFirst : Bool} (hindex : decide (index = 0) = isFirst)
    {items : List Json} (hitems : Reader.Items (Reader.value depth) isFirst cursor items inside)
    (values : τ) (last : Cursor) :
    (∃ between, (fields.readItems tooShort depth index).Answers cursor values between ∧
        Reader.closeList.Answers between () last) ↔
      fields.decodeItems tooShort index items = .ok (values, []) ∧
        Reader.closeList.Answers inside () last := by
  induction fields generalizing index isFirst cursor items with
  | nil =>
      simp only [readItems, decodeItems, Reader.answers_pure_iff, and_assoc, exists_eq_left,
        true_and, pure_eq_ok_iff, Prod.mk.injEq]
      cases hitems with
      | done hnext =>
          cases hnext.item_turn with
          | closes hhead => simp [Reader.answers_closeList_token_iff]
      | more hnext hvalue hrest =>
          have hopen : ¬ Reader.closeList.Answers cursor () last := by
            intro hclose
            have hhead := hclose.list_closed.1
            cases hnext.item_turn with
            | opens hother hc => exact hc (Option.some.inj (hother.symm.trans hhead))
            | comma hother =>  simp [hhead] at hother
          simp [hopen]
  | cons field rest ih =>
      have hlater : decide (index + 1 = 0) = false := by simp
      cases hitems with
      | done hnext =>
          have hdone : Reader.Items (Reader.value depth) false inside [] inside := by
            cases hnext.item_turn with
            | closes hhead =>
                rw [← cursor.token_token] at hhead
                simpa using Reader.Items.done (Reader.answers_nextItem_of_closing hhead)
          simp only [readItems, decodeItems, hindex, hnext.bind_iff, Bool.false_eq_true, if_false]
          cases habsent : field.absent with
          | none => simp
          | some value =>
              rw [answers_readItems_cons_iff, ih hfields.2 hlater hdone, decodeItems_rest_iff,
                and_assoc]
      | more hnext hvalue hrest =>
          have hothers := @ih _ hfields.2 _ _ hlater _ hrest
          simp only [readItems, decodeItems, hindex, hnext.bind_iff, if_true]
          constructor
          · rintro ⟨between, hread, hclose⟩
            obtain ⟨held, _, hheld, hread⟩ := Reader.answers_bind_iff.1 hread
            obtain ⟨rfl, hdecode⟩ := (hfields.1 depth hvalue held _).1 hheld
            obtain ⟨hfirst, hleft⟩ := answers_readItems_cons_iff.1 ⟨between, hread, hclose⟩
            obtain ⟨hdecodes, hclose⟩ := (hothers _).1 hleft
            exact ⟨bind_eq_ok_iff.2
              ⟨held, hdecode, decodeItems_rest_iff.2 ⟨hfirst, hdecodes⟩⟩, hclose⟩
          · rintro ⟨hdecodes, hclose⟩
            obtain ⟨held, hdecode, hleft⟩ := bind_eq_ok_iff.1 hdecodes
            obtain ⟨hfirst, hdecodes⟩ := decodeItems_rest_iff.1 hleft
            obtain ⟨between, hread, hclose⟩ :=
              answers_readItems_cons_iff.2 ⟨hfirst, (hothers _).2 ⟨hdecodes, hclose⟩⟩
            have hheld := (hfields.1 depth hvalue held _).2 ⟨rfl, hdecode⟩
            exact ⟨between, Reader.answers_bind_iff.2 ⟨held, _, hheld, hread⟩, hclose⟩

end Fields

namespace Codec

variable {α σ τ : Type} {cursor : Cursor}

/-- Structures are read alike on both routes if their fields are. -/
theorem tracks_record {fields : Fields σ τ} (hfields : fields.Tracks) {name : String}
    {make : τ → α} {parts : α → τ} : (record name fields make parts).Tracks := by
  intro depth cursor json after hjson value last
  obtain ⟨c, hhead, hbegins⟩ := hjson.begins
  rw [record, answers_readToken_iff hhead]
  cases hbegins with
  | @object inner _ _ hdepth hmembers hcount hclose =>
      subst hdepth
      simp only [if_true, Reader.answers_anchored_iff, Reader.deeper, Reader.answers_object_iff,
        Reader.bind_iff_of_answers_iff fun _ _ => hmembers.mirrors (hfields.takesIn inner) hcount]
      simp [bind_eq_ok_iff, map_eq_ok_iff, hclose.iff_eq]
      exact and_comm
  | @array inner _ _ hdepth hitems hcount hclose =>
      subst hdepth
      have hfill :=
        hfields.items_fill (Fields.tooShort name fields.size) (decide_eq_true rfl) hitems
      simp only [Char.reduceEq, if_false, if_true, Reader.answers_anchored_iff, Reader.deeper,
        Reader.answers_list_iff, Reader.answers_bind_iff, Reader.answers_pure_iff]
      constructor
      · rintro ⟨_, ⟨values, between, hread, rfl, rfl⟩, hend⟩
        obtain ⟨hdecode, hend⟩ := (hfill values last).1 ⟨_, hread, hend⟩
        exact ⟨(hclose.iff_eq ()).1 hend |>.1, bind_eq_ok_iff.2 ⟨_, hdecode, rfl⟩⟩
      · rintro ⟨rfl, hdecode⟩
        obtain ⟨⟨values, left⟩, hvalues, hleft⟩ := bind_eq_ok_iff.1 hdecode
        cases left with
        | nil =>
            obtain ⟨between, hread, hend⟩ := (hfill values last).2 ⟨hvalues, hclose⟩
            exact ⟨between, ⟨values, _, hread, rfl, pure_eq_ok_iff.1 hleft⟩, hend⟩
        | cons item rest => simp at hleft
  | number hdigit => simp [ne_of_isDigit hdigit]
  | _ => simp

theorem answers_readName_iff {values : List α} {name : α → String} {named last : Cursor}
    {word : String} (hhead : cursor.token.rest.head? = some '"')
    (hkey : Reader.key.Answers cursor.token word named) {value : α} :
    (readName values name).Answers cursor value last ↔
      last = named ∧ ofName values name word = .ok value := by
  rw [readName, answers_readToken_iff hhead]
  simp [hkey.bind_iff]

theorem answers_unit_iff {depth : Nat} {payload : Json} {after last : Cursor}
    (hpayload : (Reader.value depth).Answers cursor payload after) {value : Unit} :
    (readToken fun c =>
        if c = 'n' then do
          Reader.advance
          Reader.word ['u', 'l', 'l']
        else Reader.refuse "unit").Answers cursor value last ↔
      last = after ∧ payload = .null := by
  obtain ⟨c, hhead, hbegins⟩ := hpayload.begins
  rw [answers_readToken_iff hhead]
  cases hbegins with
  | null hword => simp [hword.iff_eq]
  | number hdigit => simp [ne_of_isDigit hdigit]
  | _ => simp

/-- Names are read alike on both routes, also in the form of an object with one member. -/
theorem tracks_named {values : List α} {name : α → String} : (named values name).Tracks := by
  intro depth cursor json after hjson value last
  obtain ⟨c, hhead, hbegins⟩ := hjson.begins
  rw [named, answers_readToken_iff hhead]
  cases hbegins with
  | string hstring =>
      rw [← cursor.token_token] at hhead hstring
      have hkey : Reader.key.Answers cursor.token.token _ after :=
        Reader.answers_bind_iff.2 ⟨(), _, Reader.answers_advance_iff.2 rfl, hstring⟩
      simp [answers_readName_iff hhead hkey]
  | @object inner _ _ hdepth hmembers hcount hclose =>
      subst hdepth
      simp only [Char.reduceEq, if_false, if_true, Reader.deeper]
      rw [((@Reader.answers_advance_iff _ _ ()).2 rfl).bind_iff]
      cases hmembers with
      | done hnext =>
          cases hnext.member_turn with
          | closes hhead => simp [readName, readToken, hhead]
      | @more _ _ start named colons between _ word payload rest hnext hkey hcolon hvalue hrest =>
          have hstart : start = cursor.token.next.token := by
            cases hnext.member_turn
            rfl
          subst hstart
          obtain ⟨c, hquote, rfl⟩ := hnext.member_turn.exists_head
          rw [Reader.bind_iff_of_answers_iff fun _ _ => answers_readName_iff hquote hkey]
          simp only [hcolon.bind_iff,
            Reader.bind_iff_of_answers_iff fun _ _ => answers_unit_iff hvalue]
          cases hrest with
          | done hend =>
              obtain ⟨hbrace, rfl⟩ := hclose.object_closed
              cases hend.member_turn with
              | closes hhead =>
                  cases payload with
                  | null => simpa [hhead, bind_eq_ok_iff] using and_comm
                  | _ => simp [bind_eq_ok_iff]
          | more hend =>
              cases hend.member_turn with
              | comma hhead => simp [hhead]
  | number hdigit => simp [ne_of_isDigit hdigit]
  | _ => simp

theorem tracks_untagged {name : String} {encode : α → Json}
    {alternatives : List (Json → Option α)} : (untagged name encode alternatives).Tracks := by
  intro depth cursor json after hjson value last
  rw [decode_untagged_eq_ok_iff, untagged, hjson.bind_iff]
  cases alternatives.findSome? (fun attempt => attempt json) <;> simp

end Codec

/-- A text is read if a value is followed by nothing but blanks. -/
theorem Json.Reader.parse_eq_ok_iff {α : Type} {reader : Reader α} {text : String} {value : α} :
    Reader.parse reader text = .ok value ↔
      ∃ after last, reader.Answers (Cursor.start text) value after ∧
        Reader.atEnd.Answers after () last := by
  have hwhole : ∀ last, (do
      let result ← reader
      Reader.atEnd
      return result).Answers (Cursor.start text) value last ↔
        ∃ after, reader.Answers (Cursor.start text) value after ∧
          Reader.atEnd.Answers after () last := by
    intro last
    simp only [Reader.answers_bind_iff, Reader.answers_pure_iff]
    constructor
    · rintro ⟨_, after, hvalue, ⟨⟩, _, hend, rfl, rfl⟩
      exact ⟨after, hvalue, hend⟩
    · rintro ⟨after, hvalue, hend⟩
      exact ⟨value, after, hvalue, (), _, hend, rfl, rfl⟩
  constructor
  · intro hparse
    obtain ⟨after, hvalue, hend⟩ := (hwhole _).1 (Prod.ext hparse rfl)
    exact ⟨after, _, hvalue, hend⟩
  · rintro ⟨after, last, hvalue, hend⟩
    exact congrArg Prod.fst ((hwhole last).2 ⟨after, hvalue, hend⟩)

/-- Where a text can be parsed, reading it comes to what decoding its value comes to. -/
theorem Codec.Tracks.ofText_eq_ok_iff {α : Type} {codec : Codec α} (hcodec : codec.Tracks)
    {text : String} {json : Json} (hparse : Json.parse text = .ok json) (value : α) :
    codec.ofText text = .ok value ↔ codec.decode json = .ok value := by
  obtain ⟨after, last, hjson, hend⟩ := Json.Reader.parse_eq_ok_iff.1 hparse
  rw [Codec.ofText, Json.Reader.parse_eq_ok_iff]
  simp only [hcodec _ hjson]
  constructor
  · rintro ⟨_, _, ⟨_, hvalue⟩, _⟩
    exact hvalue
  · intro hvalue
    exact ⟨after, last, ⟨rfl, hvalue⟩, hend⟩

end StackBridge
