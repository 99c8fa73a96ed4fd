import CharacterSheet.Config.File
import CharacterSheet.Json.Form
import CharacterSheet.Proofs.Ability.Names
import CharacterSheet.Proofs.Character.Roll
import CharacterSheet.Proofs.Character.Scripted
import CharacterSheet.Proofs.Character.Uniformity
import CharacterSheet.Proofs.Config.Decoding
import CharacterSheet.Proofs.Config.File
import CharacterSheet.Proofs.Config.Layout
import CharacterSheet.Proofs.Config.Parse
import CharacterSheet.Proofs.Config.Usable
import CharacterSheet.Proofs.Json.Decoding
import CharacterSheet.Proofs.Json.Layout
import CharacterSheet.Proofs.Json.Record
import CharacterSheet.Proofs.Json.Rephrasing
import CharacterSheet.Proofs.Json.RoundTrip
import CharacterSheet.Proofs.Json.Spelling
import CharacterSheet.Proofs.Race.Adjustment
import CharacterSheet.Proofs.Race.Bonus
import CharacterSheet.Proofs.Race.Selection
import CharacterSheet.Proofs.Random.Ending
import CharacterSheet.Proofs.Random.Pcg
import CharacterSheet.Proofs.Random.Replay
import CharacterSheet.Proofs.Random.Script
import CharacterSheet.Proofs.Random.Uniform
import CharacterSheet.Proofs.Random.Widening
import CharacterSheet.Proofs.Sheet.Mutation
import CharacterSheet.Proofs.Sheet.Sum
import CharacterSheet.Proofs.Text.Utf8
import CharacterSheet.Proofs.Toml.Keys
import CharacterSheet.Proofs.Toml.Layout
import CharacterSheet.Proofs.Toml.Reading
import CharacterSheet.Proofs.Workshop.Effect
import CharacterSheet.Proofs.Workshop.History
import CharacterSheet.Random.ChaCha
import CharacterSheet.Random.Forwarded
import CharacterSheet.Random.Script
import CharacterSheet.Workshop.Basic
import CharacterSheet.Proofs.Race.Step
import CharacterSheet.Proofs.Race.Names
import CharacterSheet.Proofs.Random.Layers
