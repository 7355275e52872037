import CallBinding.Grammar.Program
import CallBinding.Session
import CallBinding.Proofs.Relaxation
import CallBinding.Proofs.ParameterTally
import CallBinding.Proofs.AppendedCode
import CallBinding.Proofs.StandingPositions
import CallBinding.Proofs.Shortfall
import CallBinding.Proofs.BatchLoading
import CallBinding.Proofs.BareNames
import CallBinding.Proofs.SlotSorting
import CallBinding.Proofs.DocumentOrder
import CallBinding.Proofs.ArgumentGroups
import CallBinding.Proofs.CallShape
import CallBinding.Proofs.KeywordSets
import CallBinding.Proofs.OutcomeCoherence
import CallBinding.Proofs.CheckedData
import CallBinding.Proofs.FirstFault
import CallBinding.Proofs.ExtractedArguments
import CallBinding.Proofs.SpanCharacters
import CallBinding.Proofs.DistinctLabels
