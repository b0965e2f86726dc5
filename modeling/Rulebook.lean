import Rulebook.Session.Store
import Rulebook.Settings.Document
import Rulebook.Record.Document
import Rulebook.Proofs.InfixCompilation
import Rulebook.Proofs.DisplayRoundTrip
import Rulebook.Proofs.EvaluationSafety
import Rulebook.Proofs.DocumentRoundTrip
import Rulebook.Proofs.DrainPolicy
import Rulebook.Proofs.StoreHistory
import Rulebook.Proofs.Acceptance
import Rulebook.Proofs.NumeralGrammar
import Rulebook.Proofs.JsonGrammar
import Rulebook.Proofs.JsonAcceptance
import Rulebook.Proofs.NodeShape
import Rulebook.Proofs.DocumentAcceptance
import Rulebook.Proofs.ReaderAgreement
import Rulebook.Proofs.TokenSeams
import Rulebook.Proofs.TextualComposition
import Rulebook.Proofs.Rounding
import Rulebook.Proofs.NumeralSize
import Rulebook.Proofs.StepwiseReading
import Rulebook.Proofs.NumberAgreement
import Rulebook.Proofs.RecordNumbers
import Rulebook.Proofs.PostorderFaults
import Rulebook.Proofs.LiteralGrammar
import Rulebook.Proofs.NumbersInRules
import Rulebook.Proofs.CacheBounds
import Rulebook.Proofs.EngineRuns
import Rulebook.Proofs.FailedSettings
import Rulebook.Proofs.HistoryIndependence
import Rulebook.Proofs.Conservation
import Rulebook.Proofs.Groups
import Rulebook.Proofs.EagerEvaluation
import Rulebook.Proofs.NamedAttributes
import Rulebook.Proofs.TokenTexts
import Rulebook.Proofs.LeftmostTokens
import Rulebook.Proofs.ConditionParts
import Rulebook.Proofs.LiteralClasses
import Rulebook.Proofs.ComparatorOrder
import Rulebook.Proofs.JoinedTrees
import Rulebook.Proofs.DocumentFaults
import Rulebook.Proofs.NestingLimit
import Rulebook.Proofs.DictRoundTrip
import Rulebook.Proofs.CacheChanges
import Rulebook.Proofs.TreeWalks
import Rulebook.Proofs.TreeEquality
import Rulebook.Proofs.AuditTrail
import Rulebook.Proofs.RecordReaders
import Rulebook.Proofs.SettingsSources
