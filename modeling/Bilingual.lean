import Bilingual.FormatRulesReader
import Bilingual.IndentLimits
import Bilingual.Main
import Bilingual.Proofs.FormattingKeepsContents
import Bilingual.Proofs.FormattingTwice
import Bilingual.Proofs.KeywordRoundTrip
import Bilingual.Proofs.CharacterKinds
import Bilingual.Proofs.SubstitutedSpans
import Bilingual.Proofs.KindRuns
import Bilingual.Proofs.ScanPartition
import Bilingual.Proofs.ScanCursor
import Bilingual.Proofs.ScanMoments
import Bilingual.Proofs.DisjointLanguages
import Bilingual.Proofs.LocalizedFormatting
import Bilingual.Proofs.ScanEnds
import Bilingual.Proofs.ScannedSeams
import Bilingual.Proofs.SubstitutedSeams
import Bilingual.Proofs.LinePieces
import Bilingual.Proofs.LineLevels
import Bilingual.Proofs.NestedOutput
import Bilingual.Proofs.AgreeingSources
import Bilingual.Proofs.FixedSources
import Bilingual.Proofs.LineLayouts
import Bilingual.Proofs.IndentUnits
import Bilingual.Proofs.KeywordRows
import Bilingual.Proofs.KeywordMaps
import Bilingual.Proofs.ParallelRuns
import Bilingual.Proofs.SubstitutedParts
import Bilingual.Proofs.ClosedUp
import Bilingual.Proofs.SubstitutedLines
import Bilingual.Proofs.SpacedTranslations
import Bilingual.Proofs.FormattingTranslated
import Bilingual.Proofs.Fragments
import Bilingual.Proofs.AlikeLines
import Bilingual.Proofs.LiteralContents
import Bilingual.Proofs.FittingIndentation
import Bilingual.Proofs.DeliveredResults
import Bilingual.Proofs.CommentsApart
import Bilingual.Proofs.IndependentBlocks
import Bilingual.Proofs.SubstitutableWords
import Bilingual.Proofs.LayeredSettings
import Bilingual.Proofs.LeadIns
import Bilingual.Proofs.SpacedKeywords
import Bilingual.Proofs.TrackerCalls
import Bilingual.Proofs.LongestTokens
import Bilingual.Proofs.LexersAgree
import Bilingual.Proofs.LineSlices
import Bilingual.Proofs.PieceRanges
import Bilingual.Proofs.LineCuts
import Bilingual.Proofs.ArgumentSpellings
import Bilingual.Proofs.GivenArguments
import Bilingual.Proofs.GivenOptions
import Bilingual.Proofs.RequestedCommands
import Bilingual.Proofs.RequestedSettings
import Bilingual.Proofs.RequestedDeliveries
