import VirtualPeople.Cc.Assignments
import VirtualPeople.Cc.CloneFingerprints
import VirtualPeople.Cc.CloneTree
import VirtualPeople.Cc.CompleteModels
import VirtualPeople.Cc.Cuttings
import VirtualPeople.Cc.DenseRanks
import VirtualPeople.Cc.DuplicatedIndexes
import VirtualPeople.Cc.HashConsistency
import VirtualPeople.Cc.HiddenFields
import VirtualPeople.Cc.Interchange
import VirtualPeople.Cc.PoolChanges
import VirtualPeople.Cc.Provenance
import VirtualPeople.Cc.RaisedMultiplicities
import VirtualPeople.Cc.RankedForms
import VirtualPeople.Cc.RankedSizeZero
import VirtualPeople.Cc.SparseMatrix
import VirtualPeople.Cc.TwoPass
import VirtualPeople.Kotlin.CloneCount
import VirtualPeople.Kotlin.LabelerAgreement
import VirtualPeople.Kotlin.ListAgreement
import VirtualPeople.Kotlin.MixedPasses
import VirtualPeople.Kotlin.RolloutOrder
import VirtualPeople.Kotlin.SelectorAgreement
import VirtualPeople.PoolGrowth
import VirtualPeople.Selector.LruRuns
import VirtualPeople.Selector.Progress
import VirtualPeople.Selector.ResourceNames
import VirtualPeople.Selector.Transparency
import VirtualPeople.Cc.UnseenUpdates
