import CharacterSheet.Json.Form
import CharacterSheet.Workshop.Action
import CharacterSheet.Workshop.Registers

/-!
A workshop holds a source of random numbers, a configuration, a current entry, and named sheets,
races and characters. Actions are carried out one at a time. An action that reads a register in
which nothing is stored, or that fails, leaves the registers as they are.
-/
namespace CharacterSheet

/-- The state between two actions, with a source of type σ. -/
structure Workshop (σ : Type) where
  source : σ
  config : Config
  entry : AbilityScore
  sheets : Registers Sheet
  races : Registers Race
  heroes : Registers Character

namespace Workshop

variable {σ : Type}

/-- A workshop with a source, the standard configuration, and nothing stored. -/
def start (source : σ) : Workshop σ :=
  ⟨source, Config.standard, AbilityScore.zero, .empty, .empty, .empty⟩

def keepEntry (w : Workshop σ) (entry : AbilityScore) : Reply × Workshop σ :=
  (.entry entry, { w with entry })

def keepSheet (w : Workshop σ) (target : String) (sheet : Sheet) : Reply × Workshop σ :=
  (.sheet sheet, { w with sheets := w.sheets.put target sheet })

def keepRace (w : Workshop σ) (target : String) (race : Race) : Reply × Workshop σ :=
  (.race (some race), { w with races := w.races.put target race })

def keepConfig (w : Workshop σ) (config : Config) : Reply × Workshop σ :=
  (.config config, { w with config })

def keepHero (w : Workshop σ) (target : String) (hero : Character) : Reply × Workshop σ :=
  (.hero hero, { w with heroes := w.heroes.put target hero })

/-- Goes on with what a register holds; an empty register is reported and changes nothing. -/
def reading {α : Type} (w : Workshop σ) (found : Option α) (use : α → Reply × Workshop σ) :
    Reply × Workshop σ :=
  match found with
  | some a => use a
  | none => (.notStored, w)

/-- Draws from the source and goes on with the result; the draw may fail to end. -/
def drawing {α : Type} (w : Workshop σ) (draw : Draw σ α)
    (use : Workshop σ → α → Reply × Workshop σ) : Option (Reply × Workshop σ) :=
  (draw.run w.source).map fun (a, source) => use { w with source } a

/-- Carries out one action; nothing if a draw does not end. -/
def perform [RandomSource σ] (w : Workshop σ) : Action σ → Option (Reply × Workshop σ)
  | .newEntry entry => w.keepEntry entry
  | .setEntryScore score => w.keepEntry (w.entry.withScore score)
  | .setEntryProficient proficient => w.keepEntry (w.entry.withProficient proficient)
  | .addEntry entry => w.keepEntry (w.entry + entry)
  | .rollEntry range => w.drawing (AbilityScore.rollIn range) keepEntry
  | .saveEntry bonus => some (.number (w.entry.save bonus), w)
  | .newSheet target sheet => w.keepSheet target sheet
  | .decodeSheet target text =>
    match Json.Form.read? text with
    | some sheet => w.keepSheet target sheet
    | none => some (.notDecoded, w)
  | .copySheet target origin => w.reading (w.sheets.get? origin) (w.keepSheet target)
  | .showSheet on => w.reading (w.sheets.get? on) fun sheet => (.sheet sheet, w)
  | .compareSheets left right =>
    w.reading (w.sheets.get? left) fun l =>
      w.reading (w.sheets.get? right) fun r => (.truth (l = r), w)
  | .rollSheet target range => w.drawing (Sheet.rollIn range) fun w => w.keepSheet target
  | .editSheet on edit =>
    w.reading (w.sheets.get? on) fun sheet =>
      match sheet.edit edit with
      | .ok edited => w.keepSheet on edited
      | .error error => (.failed (.ability error), w)
  | .readEntry on ability =>
    w.reading (w.sheets.get? on) fun sheet => (.entry (sheet.get ability), w)
  | .lookupEntry on key =>
    w.reading (w.sheets.get? on) fun sheet =>
      match sheet.lookup key with
      | .ok entry => (.entry entry, w)
      | .error error => (.failed (.ability error), w)
  | .changeEntry on key change =>
    w.reading (w.sheets.get? on) fun sheet =>
      match sheet.lookupModify key change with
      | .ok changed => w.keepSheet on changed
      | .error error => (.failed (.ability error), w)
  | .addSheets target left right byValue =>
    w.reading (w.sheets.get? left) fun l =>
      w.reading (w.sheets.get? right) fun r =>
        w.keepSheet target ((Sheet.Addition.fresh byValue).apply l r)
  | .addInto on right byValue =>
    w.reading (w.sheets.get? on) fun sheet =>
      w.reading (w.sheets.get? right) fun r =>
        w.keepSheet on ((Sheet.Addition.inPlace byValue).apply sheet r)
  | .newRace target kind => w.keepRace target (.ofKind kind)
  | .copyRace target origin => w.reading (w.races.get? origin) (w.keepRace target)
  | .raceBonus target race =>
    w.reading (w.races.get? race) fun race => w.keepSheet target race.bonus
  | .selectRace target id =>
    w.drawing (Race.select id) fun w race =>
      match race, target with
      | some race, some target => w.keepRace target race
      | race, _ => (.race race, w)
  | .drawRaceId => w.drawing RaceKind.randomId fun w id => (.number id.toInt, w)
  | .applyRace race on =>
    w.reading (w.races.get? race) fun race =>
      w.reading (w.sheets.get? on) fun sheet =>
        (.sheetAndRace (race.applyTo sheet) race,
          { w with sheets := w.sheets.put on (race.applyTo sheet) })
  | .newSource source => some (.done, { w with source })
  | .drawWord => w.drawing Draw.word fun w word => (.number word.toNat, w)
  | .drawInts count lo hi =>
    w.drawing (Draw.ints lo hi count) fun w ns => (.numbers (ns.map Int32.toInt), w)
  | .newConfig config => w.keepConfig config
  | .setScoreRoll min max => w.keepConfig (w.config.withScoreRoll min max)
  | .setProficiencyBonus bonus => w.keepConfig (w.config.withProficiencyBonus bonus)
  | .readConfig text detail =>
    match Config.parse text detail with
    | .ok config => w.keepConfig config
    | .error error => some (.failed (.text error), w)
  | .validateConfig =>
    match w.config.validate with
    | .ok () => some (.done, w)
    | .error error => some (.failed (.config error), w)
  | .containsScore score => some (.truth (w.config.scoreRoll.contains score), w)
  | .newHero target kind base =>
    w.reading (w.sheets.get? base) fun sheet => w.keepHero target (.ofParts (.ofKind kind) sheet)
  | .combineHero target race base =>
    w.reading (w.races.get? race) fun race =>
      w.reading (w.sheets.get? base) fun sheet => w.keepHero target (.ofParts race sheet)
  | .rollHero target id =>
    w.drawing (Character.roll id w.config) fun w hero =>
      match hero with
      | .ok hero => w.keepHero target hero
      | .error error => (.failed (.character error), w)
  | .compareHeroes left right =>
    w.reading (w.heroes.get? left) fun l =>
      w.reading (w.heroes.get? right) fun r => (.truth (l = r), w)
  | .copyHero target origin => w.reading (w.heroes.get? origin) (w.keepHero target)
  | .heroRace target hero =>
    w.reading (w.heroes.get? hero) fun hero => w.keepRace target hero.race
  | .heroBase target hero =>
    w.reading (w.heroes.get? hero) fun hero => w.keepSheet target hero.base
  | .heroScores target hero =>
    w.reading (w.heroes.get? hero) fun hero => w.keepSheet target hero.scores

/-- Carries out actions in order and lists the answers. -/
def performAll [RandomSource σ] (w : Workshop σ) :
    List (Action σ) → Option (List Reply × Workshop σ)
  | [] => some ([], w)
  | action :: actions => do
    let (reply, w) ← w.perform action
    let (replies, w) ← w.performAll actions
    some (reply :: replies, w)

end Workshop
end CharacterSheet
