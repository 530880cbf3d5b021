import StoreLock.Proofs.Contest.Basic
import StoreLock.Provider
import StoreLock.Simulation.Run
import StoreLock.StaticLock
import StoreLock.Store.FolderClient
import StoreLock.Timings.Json
import StoreLock.Timings.Toml
import StoreLock.Proofs.Lock.Advance
import StoreLock.Proofs.Contest.Move
import StoreLock.Proofs.Contest.Invariant
import StoreLock.Proofs.Contest.Order
import StoreLock.Proofs.Contest.Timing
import StoreLock.Proofs.Lock.Limit
import StoreLock.Proofs.Contest.Course
import StoreLock.Proofs.Contest.Rivals
import StoreLock.Proofs.Contest.Exclusion
import StoreLock.Proofs.Contest.Overlap
import StoreLock.Proofs.Lock.Deletion
import StoreLock.Proofs.Lock.Ranking
import StoreLock.Proofs.Lock.Settling
import StoreLock.Proofs.Session.Isolation
import StoreLock.Proofs.Lock.Remains
import StoreLock.Proofs.Entry.Codec
import StoreLock.Proofs.Entry.Sorting
import StoreLock.Proofs.Session.Succession
import StoreLock.Proofs.Session.Provided
import StoreLock.Proofs.Provider.Fleet
import StoreLock.Proofs.Store.Past
import StoreLock.Proofs.Store.Staleness
import StoreLock.Proofs.Store.OwnChanges
import StoreLock.Proofs.Folder.Refinement
import StoreLock.Proofs.Folder.Missing
import StoreLock.Proofs.Folder.Shortcut
import StoreLock.Proofs.Folder.ObjectPath
import StoreLock.Proofs.Folder.Growth
import StoreLock.Proofs.Folder.Lawful
import StoreLock.Proofs.Folder.Usable
import StoreLock.Proofs.Folder.Staging
import StoreLock.Proofs.Folder.Steps
import StoreLock.Proofs.Folder.Effects
import StoreLock.Proofs.Folder.Publication
import StoreLock.Proofs.Lock.Alternation
import StoreLock.Proofs.Session.Deadline
import StoreLock.Proofs.Lock.Overdue
import StoreLock.Proofs.Lock.Overtaking
import StoreLock.Proofs.Lock.Failure
import StoreLock.Proofs.Session.Cancellation
import StoreLock.Proofs.Sequencer.Course
import StoreLock.Proofs.Sightings
import StoreLock.Proofs.Marker
import StoreLock.Proofs.Timings.Written
import StoreLock.Proofs.Channel
import StoreLock.Proofs.Simulation.History
import StoreLock.Proofs.Folder.Passage
import StoreLock.Proofs.Folder.PathText
